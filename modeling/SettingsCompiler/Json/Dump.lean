import SettingsCompiler.Json.Value
import SettingsCompiler.Header.Unit

/-!
# Trees and headers as JSON

The JSON form of settings, struct definitions and tables, for tools that look at what
was loaded and compiled.
-/

namespace SettingsCompiler

open Header

/-- A plain default as JSON. -/
def Value.toJson : Value → Json
  | null => .null
  | bool b => .bool b
  | int n => .int n.toInt
  | text s => .str s

/-- The attributes of a setting as JSON, with the default in its place. -/
def Info.toJson (i : Info) (default : Json) : Json :=
  .object [
    ("name", .str i.name),
    ("ty", .object [("kind", .str i.kind.tag), ("target", .str i.target)]),
    ("default", default),
    ("comment", .str i.comment),
    ("doc_comment", .str i.docComment),
    ("internal", .bool i.internal),
    ("expert", .bool i.expert),
    ("version", .str i.version),
    ("struct_name", .str i.structName),
    ("ident", .str i.ident)]

mutual

/-- A setting as JSON. -/
def Setting.toJson : Setting → Json
  | .leaf info value => info.toJson value.toJson
  | .group info children => info.toJson (.arr (settingsToJson children))

/-- The settings of a list as JSON. -/
def settingsToJson : List Setting → List Json
  | [] => []
  | c :: cs => c.toJson :: settingsToJson cs

end

namespace Header

/-- A member as JSON. -/
def Member.toJson (m : Member) : Json :=
  .object [
    ("comment", match m.comment with
      | some comment => .str comment
      | none => .null),
    ("ty", .str m.ty),
    ("ident", .str m.ident)]

/-- A definition as JSON. -/
def StructDef.toJson (d : StructDef) : Json :=
  .object [
    ("name", .str d.name),
    ("comment", .str d.comment),
    ("members", .arr (d.members.map Member.toJson))]

/-- A literal as JSON. -/
def Literal.toJson : Literal → Json
  | bool b => .object [("kind", .str "Bool"), ("value", .bool b)]
  | int n => .object [("kind", .str "Int"), ("value", .int n.toInt)]
  | str s => .object [("kind", .str "Str"), ("value", .str s)]
  | tableRef info => .object [("kind", .str "TableRef"), ("value", .str info)]
  | null => .object [("kind", .str "Null")]

/-- The name of a table as JSON. -/
def TableName.toJson (t : TableName) : Json :=
  .object [("base", .str t.base), ("occurrence", .int t.occurrence)]

/-- Where a setting is stored, as JSON. -/
def Offset.toJson : Offset → Json
  | member ident index =>
    .object [("kind", .str "Member"), ("ident", .str ident), ("index", .int index)]
  | noStorage => .object [("kind", .str "NoStorage")]

/-- A row as JSON. -/
def Row.toJson (r : Row) : Json :=
  .object [
    ("offset", r.offset.toJson),
    ("kind", .str r.kind.tag),
    ("default", r.default.toJson),
    ("name", .str r.name)]

/-- A table as JSON. -/
def Table.toJson (t : Table) : Json :=
  .object [
    ("name", t.name.toJson),
    ("struct_name", .str t.structName),
    ("rows", .arr (t.rows.map Row.toJson))]

end Header

end SettingsCompiler
