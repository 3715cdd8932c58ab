import SettingsCompiler.Docs.Style
import SettingsCompiler.Setting.Name

/-!
# Documentation as HTML

The layout of the plain documentation with comments in anchored elements, links as
links, and settings for experts in elements that a page can hide. `escape` replaces the
four characters that mean something to HTML ; the width of a piece counts what a reader
sees of it.
-/

namespace SettingsCompiler.Docs

/-! ## Escaping -/

/-- A character in the text of an element or in an attribute. -/
def escapeChar (c : Char) : List Char :=
  if c = '&' then "&amp;".toList
  else if c = '<' then "&lt;".toList
  else if c = '>' then "&gt;".toList
  else if c = '\x22' then "&quot;".toList
  else [c]

/-- A text in an element or in an attribute. -/
def escape (s : String) : String :=
  String.ofList (s.toList.flatMap escapeChar)

/-! ## The style -/

/-- A token as HTML, with the number of its visible characters. -/
def Token.html : Token → Text.Piece
  | word text => ⟨escape text, text.length⟩
  | link lead label url tail =>
    ⟨escape lead ++ "<a href=\"" ++ escape url ++ "\">" ++ escape label ++ "</a>" ++ escape tail,
      lead.length + label.length + tail.length⟩

/-- The HTML style. -/
def Style.html : Style where
  piece := Token.html
  comment indent path lines :=
    indent ++ "<span class=cm id=\"" ++ escape path ++ "\">" ++
      Text.joinWith ("\n" ++ indent) (lines.map ("; " ++ ·)) ++ "</span>\n"
  value := escape
  boundary entering := if entering then "<div class=expert>\n" else "</div>\n"

/-- The documentation of a root as the contents of a preformatted element. -/
def renderHtml (width : Nat) (root : Setting) : Except Fault String :=
  render .html width root

/-! ## Pages -/

/-- What a page says besides the documentation. -/
structure Page where
  title : String
  version : String
  width : Nat
deriving DecidableEq, Repr

namespace Page

/-- The title of a page unless another is asked for. -/
def defaultTitle : String := "Settings"

/-- The name of the page of a version. -/
def permalink (p : Page) : String :=
  "settings" ++ Name.docId p.version ++ ".html"

/-- The style sheet of a page. -/
def styleSheet : List String := [
  "body \x7b font-family: sans-serif; margin: 2em; \x7d",
  "pre \x7b font-size: 90%; \x7d",
  ".cm \x7b color: #800080; \x7d",
  ".expert \x7b display: none; \x7d",
  "body.show-expert .expert \x7b display: block; \x7d"]

/-- A page around the contents of its preformatted element. -/
def around (p : Page) (body : String) : String :=
  let title := escape (p.title ++ " " ++ p.version)
  let link := escape p.permalink
  Text.unlines (
    ["<!doctype html>", "<html>", "<head>", "<meta charset=\"utf-8\">",
      "<title>" ++ title ++ "</title>", "<style>"] ++ styleSheet ++
    ["</style>", "</head>", "<body>", "<h2>" ++ title ++ "</h2>",
      "<p>Permalink: <a href=\"" ++ link ++ "\">" ++ link ++ "</a></p>",
      "<p><label><input type=checkbox onchange=\"document.body.classList.toggle(" ++
        "'show-expert', this.checked)\"> show expert settings</label></p>",
      "<pre>"]) ++ body ++ Text.unlines ["</pre>", "</body>", "</html>"]

/-- The page that documents a root. -/
def render (p : Page) (root : Setting) : Except Fault String :=
  (renderHtml p.width root).map p.around

end Page

end SettingsCompiler.Docs
