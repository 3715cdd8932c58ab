import SettingsCompiler.Docs.Style

/-!
# Plain documentation

The settings file format itself, with comments behind semicolons. A link is spelled as
its label with the target in parentheses.
-/

namespace SettingsCompiler.Docs

/-- A token as plain text. -/
def Token.plain : Token → String
  | word text => text
  | link lead label url tail => lead ++ label ++ " (" ++ url ++ ")" ++ tail

/-- The plain style. -/
def Style.plain : Style where
  piece token := Text.Piece.plain token.plain
  comment indent _ lines := Text.unlines (lines.map fun line => indent ++ "; " ++ line)
  value := id
  boundary _ := ""

/-- The documentation of a root as plain text. -/
def renderText (width : Nat) (root : Setting) : Except Fault String :=
  render .plain width root

end SettingsCompiler.Docs
