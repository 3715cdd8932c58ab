import SettingsCompiler.Command.Config
import SettingsCompiler.Json.Dump

/-!
# Inspecting what a schema compiles to

The stages of a compilation as JSON : the tree of settings, the struct definitions, or
the tables.
-/

namespace SettingsCompiler

/-- What to look at. -/
inductive Stage
  | schema
  | structs
  | tables
deriving DecidableEq, Repr

/-- The stage of a name. -/
def Stage.ofName? : String → Option Stage
  | "schema" => some schema
  | "structs" => some structs
  | "tables" => some tables
  | _ => none

/-- A stage of the compilation of roots as JSON. -/
def Stage.toJson (roots : List Setting) : Stage → Except Fault Json
  | schema => .ok (.arr (settingsToJson roots))
  | structs => (Header.compile roots).map fun h => .arr (h.structs.map (·.toJson))
  | tables => (Header.compile roots).map fun h => .arr (h.tables.map (·.toJson))

/-- A stage of what a configuration compiles to, as the text of its JSON. -/
def inspect (stage : Stage) (pretty : Bool) (w : Workspace) (config : String) :
    Except Failure String := do
  let c ← Config.load w config
  let roots ← c.roots w
  let value ← Failure.bare Failure.ofFault (stage.toJson roots)
  .ok (if pretty then value.pretty else value.compact)

end SettingsCompiler
