import SettingsCompiler.Data.Node
import SettingsCompiler.Schema.Definition

/-!
# Reading schemas

A schema is read from a tree of nodes, whatever the format of the document. Mappings
with a fixed set of keys reject other keys and repeated ones ; a definition must have
a `type` and a schema its `roots`. A tree of any other layout is no schema, and nothing
is said about where it fails.
-/

namespace SettingsCompiler

open Data

namespace Definition

/-- The keys of a definition. -/
def keys : List String :=
  ["name", "type", "default", "comment", "doc", "internal", "expert", "version",
    "struct_name", "fields", "shape", "defaults"]

/-- What a definition says that says nothing. -/
def blank : Attributes where
  name := ""
  type := ""
  given := none
  comment := ""
  doc := none
  internal := false
  expert := false
  version := none
  structName := none
  shape := none
  overrides := .empty

/-- Attributes with the value of one key read. -/
def setAttribute (a : Attributes) (key : String) (v : Node) : Option Attributes :=
  match key with
  | "name" => v.text?.map fun name => { a with name }
  | "type" => v.text?.map fun type => { a with type }
  | "default" => (v.optional Node.datum?).map fun given => { a with given }
  | "comment" => v.text?.map fun comment => { a with comment }
  | "doc" => (v.optional Node.text?).map fun doc => { a with doc }
  | "internal" => v.flag?.map fun internal => { a with internal }
  | "expert" => v.flag?.map fun expert => { a with expert }
  | "version" => (v.optional Node.text?).map fun version => { a with version }
  | "struct_name" => (v.optional Node.text?).map fun structName => { a with structName }
  | "shape" => (v.optional Node.text?).map fun shape => { a with shape }
  | "defaults" => do
    let entries ← v.entries?
    let data ← entries.mapM fun (k, n) => n.datum?.map fun d => (k, d)
    return { a with overrides := .ofEntries data }
  | _ => none

/-- A definition under way : the keys seen, its attributes and its own list. -/
structure Draft where
  seen : List String
  attributes : Attributes
  fields : Option (List Definition)

/-- The definition of a draft, once its type is known. -/
def Draft.finish (d : Draft) : Option Definition :=
  if d.seen.contains "type" then
    match d.fields with
    | some fields => some (.inline d.attributes fields)
    | none => some (.plain d.attributes)
  else none

mutual

/-- A definition. -/
def ofNode? : Node → Option Definition
  | .map _ entries => (ofEntries? ⟨[], blank, none⟩ entries).bind Draft.finish
  | _ => none

/-- The definitions of a list that may be left out. -/
def fieldsOf? : Node → Option (Option (List Definition))
  | .list _ items => (ofItems? items).map some
  | .scalar s =>
    match s.absent with
    | some true => some none
    | some false => if s.empty then some (some []) else none
    | none => none
  | .map .. => none

/-- The definitions of a list of nodes. -/
def ofItems? : List Node → Option (List Definition)
  | [] => some []
  | n :: ns => (ofNode? n).bind fun d => (ofItems? ns).map (d :: ·)

/-- A draft with the entries of a mapping added. -/
def ofEntries? (d : Draft) : List (Node × Node) → Option Draft
  | [] => some d
  | (k, v) :: es =>
    match k.text? with
    | none => none
    | some key =>
      if d.seen.contains key then none
      else if key = "fields" then
        match fieldsOf? v with
        | none => none
        | some fields => ofEntries? { d with seen := key :: d.seen, fields } es
      else match setAttribute d.attributes key v with
        | none => none
        | some attributes => ofEntries? { d with seen := key :: d.seen, attributes } es

end

/-- The definitions of a list, or none of an empty value. -/
def listOf? (n : Node) : Option (List Definition) :=
  n.items?.bind ofItems?

end Definition

namespace Schema

/-- A schema. Of two shapes with one name the later counts. -/
def ofNode? (n : Node) : Option Schema := do
  let entries ← n.record? ["shapes", "roots"]
  let shapes ← match entries.lookup "shapes" with
    | none => some []
    | some v => v.entries?.bind fun shapes =>
      shapes.mapM fun (name, v) => (Definition.listOf? v).map fun defs => (name, defs)
  let roots ← (entries.lookup "roots").bind Definition.listOf?
  return ⟨shapes.reverse, roots⟩

end Schema

end SettingsCompiler
