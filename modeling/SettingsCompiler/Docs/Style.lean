import SettingsCompiler.Docs.Outline
import SettingsCompiler.Text.Wrap

/-!
# Spelling an outline

A style says how a token becomes a piece of a line and how the lines of a comment, a
value and a group boundary are written. Indentation, blocks and the width left for a
comment are the same in every style.
-/

namespace SettingsCompiler.Docs

/-- How the parts of the documentation are written. -/
structure Style where
  piece : Token → Text.Piece
  /-- A comment : its indentation, its path and its filled lines. -/
  comment : String → String → List String → String
  /-- The spelling of a default. -/
  value : String → String
  /-- A boundary between settings for experts and others. -/
  boundary : Bool → String

/-- Columns in front of the text of a comment, behind the indentation. -/
def markerWidth : Nat := 2

/-- The columns that documentation has unless told otherwise. -/
def defaultWidth : Nat := 80

/-- The indentation of a depth : two spaces for each level. -/
def indent (depth : Nat) : String :=
  Text.replicate depth "  "

/-- A line without its trailing blanks, ended. -/
def trimmedLine (line : String) : String :=
  String.ofList (Text.trimEnd line.toList) ++ "\n"

/-- The text of a chunk on lines of some width. -/
def Chunk.render (style : Style) (width : Nat) : Chunk → String
  | comment depth path tokens =>
    let room := width - ((indent depth).length + markerWidth)
    style.comment (indent depth) path (Text.wrap room (tokens.map style.piece))
  | value depth name text => trimmedLine (indent depth ++ name ++ " = " ++ style.value text)
  | opening depth (some name) => indent depth ++ name ++ " [\n"
  | opening depth none => indent depth ++ "[\n"
  | closing depth => indent depth ++ "]\n"
  | boundary entering => style.boundary entering

/-- The text of an outline. -/
def renderChunks (style : Style) (width : Nat) : List Chunk → String
  | [] => ""
  | c :: cs => c.render style width ++ renderChunks style width cs

/-- The documentation of a root in some style. -/
def render (style : Style) (width : Nat) (root : Setting) : Except Fault String :=
  root.outline.map (renderChunks style width)

/-- Only a tree without an outline fails, in every style and width. -/
theorem render_eq_ok_iff {style : Style} {width : Nat} {root : Setting} {text : String} :
    render style width root = .ok text ↔
      ∃ chunks, root.outline = .ok chunks ∧ renderChunks style width chunks = text := by
  unfold render
  cases root.outline <;> simp [Except.map]

end SettingsCompiler.Docs
