import SettingsCompiler.Setting.Registry
import SettingsCompiler.Header.Literal
import SettingsCompiler.Text.Lines

/-!
# Metadata tables

Every visible composite has a table of its own, named after its struct and numbered by
how often that struct was given a table before. A row says where a setting is stored,
what it is and what its default is ; the row of a composite refers to its table, which
comes first in the list. Positions count the members that the struct has for each
setting, internal ones included, though these have no row.
-/

namespace SettingsCompiler.Header

/-- The name of a table : the struct it describes and how many tables for that struct
were named before. -/
structure TableName where
  base : String
  occurrence : Nat
deriving DecidableEq, Repr

namespace TableName

/-- The name for the next table of a struct. -/
def allocate (structName : String) : Registering Fault TableName := do
  return ⟨structName, ← Registering.register structName⟩

/-- What the identifiers of a table begin with. -/
def stem (t : TableName) : String :=
  if t.occurrence = 0 then "g" ++ t.base
  else "g" ++ t.base ++ "_" ++ toString t.occurrence ++ "_"

/-- The identifier of the rows. -/
def fieldsIdent (t : TableName) : String := t.stem ++ "Fields"

/-- The identifier of the table itself. -/
def infoIdent (t : TableName) : String := t.stem ++ "Info"

end TableName

/-- Where a setting is stored. -/
inductive Offset
  /-- A member of the struct, at a position among its members. -/
  | member (ident : String) (index : Nat)
  | noStorage
deriving DecidableEq, Repr

/-- A row of a table. -/
structure Row where
  offset : Offset
  kind : Kind
  default : Literal
  name : String
deriving DecidableEq, Repr

/-- A table with its rows. -/
structure Table where
  name : TableName
  structName : String
  rows : List Row
deriving DecidableEq, Repr

/-- The row of a comment entry. -/
def Row.ofComment (default : Literal) : Row :=
  ⟨.noStorage, .comment, default, ""⟩

/-- The row of a setting whose member stands at a position. -/
def Row.ofMember (info : Info) (index : Nat) (default : Literal) : Row :=
  ⟨.member info.ident index, info.kind, default, info.name⟩

/-- How many members a setting of a kind takes. -/
def memberCount : Kind → Nat
  | .comment => 0
  | .color => 2
  | _ => 1

end SettingsCompiler.Header

namespace SettingsCompiler.Setting

open Header

/-! ## Collecting the tables -/

mutual

/-- The tables for a composite, its own the last, and the name of its own. -/
def tabulate : Setting → Registering Fault (List Table × TableName)
  | leaf info value => do
    let _ ← TableName.allocate info.structName
    throw (leaf info value).dangling
  | group info children => do
    let name ← TableName.allocate info.structName
    let _ ← Registering.ofExcept (group info children).fields
    let (tables, rows) ← tabulateAll 0 children
    return (tables ++ [⟨name, info.structName, rows⟩], name)

/-- The tables for the settings of one list, and their rows ; `index` is the position of
the next member. -/
def tabulateAll (index : Nat) : List Setting → Registering Fault (List Table × List Row)
  | [] => return ([], [])
  | c :: cs => do
    let (nested, row) ←
      if c.isComment then
        let default ← Registering.ofExcept (c.encode none)
        pure ([], [Row.ofComment default])
      else if c.info.internal then pure ([], [])
      else if c.info.kind.isComposite then
        let (nested, name) ← tabulate c
        let default ← Registering.ofExcept (c.encode (some name.infoIdent))
        pure (nested, [Row.ofMember c.info index default])
      else
        let default ← Registering.ofExcept (c.encode none)
        pure ([], [Row.ofMember c.info index default])
    let (tables, rows) ← tabulateAll (index + memberCount c.info.kind) cs
    return (nested ++ tables, row ++ rows)

end

/-- The tables for a root, each after the tables it refers to. -/
def tables (root : Setting) : Registering Fault (List Table) := do
  if root.info.kind = .struct then return (← root.tabulate).1
  else throw (.rootNotStruct root.info.name)

end SettingsCompiler.Setting

namespace SettingsCompiler.Header

/-! ## Spelling -/

/-- The line of a row in the table of a struct. -/
def Row.line (structName : String) (r : Row) : String :=
  let offset := match r.offset with
    | .member ident _ => "offsetof(" ++ structName ++ ", " ++ ident ++ ")"
    | .noStorage => "(size_t)-1"
  "    \x7b" ++ offset ++ ", SettingType::" ++ r.kind.tag ++ ", " ++ r.default.text ++ "\x7d,"

/-- The lines of a table. -/
def Table.lines (t : Table) : List String :=
  ["static const FieldInfo " ++ t.name.fieldsIdent ++ "[] = \x7b"] ++
    t.rows.map (Row.line t.structName) ++
    ["\x7d;",
      "static const StructInfo " ++ t.name.infoIdent ++ " = \x7bsizeof(" ++ t.structName ++
        "), " ++ toString t.rows.length ++ ", " ++ t.name.fieldsIdent ++ ", " ++
        quoteJoined (t.rows.map Row.name) ++ "\x7d;"]

/-- The text of a table. -/
def Table.render (t : Table) : String :=
  Text.unlines t.lines

end SettingsCompiler.Header
