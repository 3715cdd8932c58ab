import SettingsCompiler.Header.Struct
import SettingsCompiler.Header.Table

/-!
# Generated headers

A header holds the structs and the tables of a list of roots. The roots share one
registry of structs and one of tables, so a struct defined for one root is not defined
again for the next.
-/

namespace SettingsCompiler

open Header

/-- The contents of a generated header. -/
structure Header where
  structs : List StructDef
  tables : List Table
deriving DecidableEq, Repr

namespace Header

/-- The two registries of a header : one for structs, one for tables. -/
structure Registries where
  structs : Registry
  tables : Registry
deriving DecidableEq, Repr

/-- Nothing registered in either. -/
def Registries.empty : Registries := ⟨.empty, .empty⟩

/-- The header of a list of roots, from registries in some state. -/
def compileFrom (rs : Registries) : List Setting → Except Fault Header
  | [] => .ok ⟨[], []⟩
  | root :: roots =>
    match root.structDefs.runFrom rs.structs with
    | (.error e, _) => .error e
    | (.ok structs, inStructs) =>
      match root.tables.runFrom rs.tables with
      | (.error e, _) => .error e
      | (.ok tables, inTables) =>
        match compileFrom ⟨inStructs, inTables⟩ roots with
        | .error e => .error e
        | .ok rest => .ok ⟨structs ++ rest.structs, tables ++ rest.tables⟩

/-- The header of a list of roots. -/
def compile (roots : List Setting) : Except Fault Header :=
  compileFrom .empty roots

/-- The name whose definition turns the metadata on, unless another is asked for. -/
def defaultGuard : String := "INCLUDE_SETTINGSSTRUCTS_METADATA"

/-- The lines of a header. -/
def lines (guardName : String) (h : Header) : List String :=
  h.structs.flatMap (fun d => d.lines ++ [""]) ++ ["#ifdef " ++ guardName, ""] ++
    h.tables.flatMap (fun t => t.lines ++ [""]) ++ ["#endif"]

/-- The text of a header. -/
def render (guardName : String) (h : Header) : String :=
  Text.unlines (h.lines guardName)

end Header

end SettingsCompiler
