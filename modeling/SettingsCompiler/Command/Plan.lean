import SettingsCompiler.Command.Config
import SettingsCompiler.Docs.Plain
import SettingsCompiler.Workspace.Splice

/-!
# Planned outputs

Everything is compiled, rendered and spliced before any file is written, so a fault in
the schema or a marker that is missing leaves all files as they are. `Config.plan` reads
files and changes none.
-/

namespace SettingsCompiler

/-- A file to write. -/
structure Output where
  path : String
  contents : String
  /-- A program and its arguments, run on the file once it is written. -/
  formatter : Option (List String)
deriving DecidableEq, Repr

namespace Config

/-- The text of a file with everything behind its marker replaced. -/
def spliceInto (w : Workspace) (path marker generated : String) : Except Failure String := do
  let existing ← Failure.within (.readingTarget path) .os (w.read path)
  match splice? existing marker generated with
  | some contents => .ok contents
  | none => .error ⟨[.splicing path], .noMarker marker⟩

/-- The header of the roots as an output. -/
def headerOutput (w : Workspace) (roots : List Setting) (t : HeaderTarget) :
    Except Failure Output := do
  let header ← Failure.within .compilingHeader Failure.ofFault (Header.compile roots)
  let contents ← spliceInto w t.path t.marker (header.render t.guardName)
  .ok ⟨t.path, contents, t.formatter⟩

/-- The plain documentation of a root as an output. -/
def textOutput (c : Config) (w : Workspace) (root : Setting) (t : TextTarget) :
    Except Failure Output := do
  let text ← Failure.within .renderingText Failure.ofFault (Docs.renderText c.wrapWidth root)
  let contents ← spliceInto w t.path t.marker text
  .ok ⟨t.path, contents, none⟩

/-- The page that documents a root as an output. -/
def pageOutput (c : Config) (root : Setting) (t : PageTarget) : Except Failure Output := do
  let page : Docs.Page := ⟨t.title, c.version, c.wrapWidth⟩
  let contents ← Failure.within .renderingHtml Failure.ofFault (page.render root)
  .ok ⟨t.path, contents, none⟩

/-- The output of a target, if there is one. -/
def forTarget {α : Type} (output : α → Except Failure Output) :
    Option α → Except Failure (List Output)
  | none => .ok []
  | some t => (output t).map ([·])

/-- The outputs of a configuration. The header holds all roots, and the first one is
documented. -/
def plan (c : Config) (w : Workspace) : Except Failure (List Output) := do
  match ← c.roots w with
  | [] => .error ⟨[.loadingSchema c.schema], .fault .noRoots⟩
  | root :: others =>
    let header ← forTarget (headerOutput w (root :: others)) c.header
    let text ← forTarget (c.textOutput w root) c.text
    let page ← forTarget (c.pageOutput root) c.page
    .ok (header ++ text ++ page)

end Config

end SettingsCompiler
