import SettingsCompiler.Command.Failure
import SettingsCompiler.Docs.Html
import SettingsCompiler.Header.Unit
import SettingsCompiler.Schema.Reader
import SettingsCompiler.Setting.Stamp
import SettingsCompiler.Workspace.Path
import SettingsCompiler.Yaml.Document

/-!
# Configurations

A configuration names the schema, the version to stamp, and the files that receive
generated text. Each file may be left out. Paths are written from the directory of the
configuration on, and `Config.load` puts that directory before them.
-/

namespace SettingsCompiler

open Data

/-- The file that receives the generated header, behind a marker line. -/
structure HeaderTarget where
  path : String
  marker : String
  guardName : String
  /-- A program and its arguments, run on the file once it is written. -/
  formatter : Option (List String)
deriving DecidableEq, Repr

/-- The file that receives the plain documentation, behind a marker line. -/
structure TextTarget where
  path : String
  marker : String
deriving DecidableEq, Repr

/-- The file that is the HTML page. -/
structure PageTarget where
  path : String
  title : String
deriving DecidableEq, Repr

/-- What to compile and where to. -/
structure Config where
  schema : String
  version : String
  wrapWidth : Nat
  header : Option HeaderTarget
  text : Option TextTarget
  page : Option PageTarget
deriving DecidableEq, Repr

/-! ## Reading -/

namespace Data.Node

/-- The value of a key that must be there. -/
def required {α : Type} (read : Node → Option α) (key : String)
    (entries : List (String × Node)) : Option α :=
  (entries.lookup key).bind read

/-- The value of a key, or another one if the key is not there. -/
def defaulted {α : Type} (default : α) (read : Node → Option α) (key : String)
    (entries : List (String × Node)) : Option α :=
  match entries.lookup key with
  | none => some default
  | some n => read n

/-- The texts of a list. -/
def texts? (n : Node) : Option (List String) :=
  n.items?.bind (·.mapM text?)

end Data.Node

open Data.Node

/-- The target of a header. -/
def HeaderTarget.ofNode? (n : Node) : Option HeaderTarget := do
  let entries ← n.record? ["path", "marker", "guard", "formatter"]
  return {
    path := ← required text? "path" entries
    marker := ← required text? "marker" entries
    guardName := ← defaulted Header.defaultGuard text? "guard" entries
    formatter := ← defaulted none (Node.optional texts?) "formatter" entries }

/-- The target of the plain documentation. -/
def TextTarget.ofNode? (n : Node) : Option TextTarget := do
  let entries ← n.record? ["path", "marker"]
  return {
    path := ← required text? "path" entries
    marker := ← required text? "marker" entries }

/-- The target of the HTML page. -/
def PageTarget.ofNode? (n : Node) : Option PageTarget := do
  let entries ← n.record? ["path", "title"]
  return {
    path := ← required text? "path" entries
    title := ← defaulted Docs.Page.defaultTitle text? "title" entries }

namespace Config

/-- A configuration. -/
def ofNode? (n : Node) : Option Config := do
  let entries ← n.record? ["schema", "version", "wrap_width", "header", "text_doc", "html_doc"]
  return {
    schema := ← required text? "schema" entries
    version := ← required text? "version" entries
    wrapWidth := ← defaulted Docs.defaultWidth count? "wrap_width" entries
    header := ← defaulted none (Node.optional HeaderTarget.ofNode?) "header" entries
    text := ← defaulted none (Node.optional TextTarget.ofNode?) "text_doc" entries
    page := ← defaulted none (Node.optional PageTarget.ofNode?) "html_doc" entries }

/-- A configuration with its paths taken from a directory on. -/
def seenFrom (directory : String) (c : Config) : Config :=
  { c with
    schema := Path.join directory c.schema
    header := c.header.map fun t => { t with path := Path.join directory t.path }
    text := c.text.map fun t => { t with path := Path.join directory t.path }
    page := c.page.map fun t => { t with path := Path.join directory t.path } }

/-- The configuration in a file. -/
def load (w : Workspace) (path : String) : Except Failure Config := do
  let s ← Failure.within (.readingConfig path) .os (w.read path)
  match (Yaml.document? s).bind ofNode? with
  | none => .error ⟨[.parsingConfig path], .malformed⟩
  | some c => .ok (c.seenFrom ((Path.parent? path).getD "."))

/-- The paths of the files that a configuration names. -/
def paths (c : Config) : List String :=
  c.schema :: (c.header.map (·.path)).toList ++ (c.text.map (·.path)).toList ++
    (c.page.map (·.path)).toList

/-! ## The schema -/

/-- The settings that the schema of a configuration defines, stamped with the version. -/
def roots (c : Config) (w : Workspace) : Except Failure (List Setting) := do
  let s ← Failure.within (.loadingSchema c.schema) (.unreadable c.schema) (w.read c.schema)
  match (Yaml.document? s).bind Schema.ofNode? with
  | none => .error ⟨[.loadingSchema c.schema], .malformed⟩
  | some schema =>
    let roots ← Failure.within (.loadingSchema c.schema) .fault schema.resolve
    .ok (roots.map (·.stamp c.version))

end Config

end SettingsCompiler
