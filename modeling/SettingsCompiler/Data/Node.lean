import SettingsCompiler.Data.Datum
import SettingsCompiler.Json.Value

/-!
# Documents as trees of nodes

Schemas and configurations are read from trees of scalars, lists and mappings. What a
scalar means depends on what is asked of it and on the format of the document, so a
`Scalar` is the collection of its readings : as text, as a truth value, as a count, as
nothing at all, as an empty collection, and as a `Datum` where no type is asked for. The
functions below ask a node for a value of some type ; a node that cannot give one
returns `none`.

`Node.ofJson` has the readings of a JSON tree, where only a string is text.
-/

namespace SettingsCompiler.Data

/-- The readings of a scalar. -/
structure Scalar where
  text : Option String
  flag : Option Bool
  count : Option Nat
  /-- Whether the scalar stands for nothing where a value may be left out ; a scalar that
  claims to be nothing and is not has no such reading. -/
  absent : Option Bool
  /-- Whether the scalar stands for an empty collection. -/
  empty : Bool
  datum : Option Datum

/-- A document as a tree. Collections may carry a tag. -/
inductive Node
  | scalar (s : Scalar)
  | list (tag : Option String) (items : List Node)
  | map (tag : Option String) (entries : List (Node × Node))

namespace Node

/-! ## Typed readings -/

/-- The text of a scalar. -/
def text? : Node → Option String
  | scalar s => s.text
  | _ => none

/-- The truth value of a scalar. -/
def flag? : Node → Option Bool
  | scalar s => s.flag
  | _ => none

/-- The count that a scalar spells. -/
def count? : Node → Option Nat
  | scalar s => s.count
  | _ => none

/-- The items of a list, or none of an empty value. -/
def items? : Node → Option (List Node)
  | scalar s => if s.empty then some [] else none
  | list _ items => some items
  | map .. => none

/-- The entries of a mapping, or none of an empty value, with their keys as text. -/
def entries? : Node → Option (List (String × Node))
  | scalar s => if s.empty then some [] else none
  | list .. => none
  | map _ entries => entries.mapM fun (k, v) => k.text?.map fun key => (key, v)

/-- A value that may be left out, read by `read` if it is there. -/
def optional {α : Type} (read : Node → Option α) (n : Node) : Option (Option α) :=
  match n with
  | scalar s =>
    match s.absent with
    | none => none
    | some true => some none
    | some false => (read n).map some
  | _ => (read n).map some

/-- The entries of a mapping with keys from `known` only, none of them twice. -/
def record? (known : List String) (n : Node) : Option (List (String × Node)) :=
  match n with
  | map _ entries => do
    let entries ← entries.mapM fun (k, v) => k.text?.map fun key => (key, v)
    let keys := entries.map Prod.fst
    if keys.all known.contains && keys.Nodup then some entries else none
  | _ => none

/-! ## Untyped readings -/

/-- A datum with the tag of its node. -/
def withTag (tag : Option String) (d : Datum) : Datum :=
  match tag with
  | some tag => .tagged tag d
  | none => d

mutual

/-- A node as data of no fixed type. A mapping must not repeat a key. -/
def datum? : Node → Option Datum
  | scalar s => s.datum
  | list tag items => (listData? items).map fun ds => withTag tag (.list ds)
  | map tag entries => (entryData? entries).bind fun ds =>
    if Datum.repeats (ds.map Prod.fst) then none else some (withTag tag (.map ds))

/-- The items of a list as data. -/
def listData? : List Node → Option (List Datum)
  | [] => some []
  | n :: ns => n.datum?.bind fun d => (listData? ns).map (d :: ·)

/-- The entries of a mapping as data. -/
def entryData? : List (Node × Node) → Option (List (Datum × Datum))
  | [] => some []
  | (k, v) :: es =>
    k.datum?.bind fun key => v.datum?.bind fun value =>
      (entryData? es).map ((key, value) :: ·)

end

/-! ## JSON trees -/

/-- The readings of a JSON value that is neither an array nor an object. -/
def jsonScalar (v : Json) : Scalar :=
  let other : Scalar := ⟨none, none, none, some false, false, none⟩
  match v with
  | .null => { other with absent := some true, empty := true, datum := some .null }
  | .bool b => { other with flag := some b, datum := some (.bool b) }
  | .int n => { other with count := n.toNat?, datum := some (.int n) }
  | .real x => { other with datum := some (.real x) }
  | .str s => { other with text := some s, datum := some (.text s) }
  | _ => other

mutual

/-- A JSON value as a node. -/
def ofJson : Json → Node
  | .arr items => list none (ofJsonItems items)
  | .obj members => map none (ofJsonMembers members)
  | v => scalar (jsonScalar v)

/-- The items of an array as nodes. -/
def ofJsonItems : List Json → List Node
  | [] => []
  | v :: vs => ofJson v :: ofJsonItems vs

/-- The members of an object as entries. -/
def ofJsonMembers : List (String × Json) → List (Node × Node)
  | [] => []
  | (k, v) :: ms => (scalar (jsonScalar (.str k)), ofJson v) :: ofJsonMembers ms

end

end Node

end SettingsCompiler.Data
