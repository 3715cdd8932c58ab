import SettingsCompiler.Schema.Definition
import SettingsCompiler.Setting.Basic
import SettingsCompiler.Decimal.Shortest

/-!
# Resolving a schema

Each definition becomes a setting : its tag becomes a kind, its default is checked
against the kind, and a composite gets the settings of its own list or of the shape it
uses. Every use of a shape has settings of its own, so what one use overrides no other
use sees.

A shape must not be used while it is being expanded. Each expansion inside another opens
one more of the shapes there are (`unopened_cons_lt`), so `Schema.expand` comes to an end,
whatever the shapes refer to.
-/

namespace SettingsCompiler

open Data

/-- A reason why a schema does not give a tree of settings. -/
inductive SchemaFault
  /-- A fault of the tree itself. -/
  | tree (fault : Fault)
  /-- A shape that is used within itself. -/
  | cyclicShape (shape : String)
  /-- A default given anew for a member that is not there. -/
  | unknownOverride (field member : String)
  /-- A composite with both a list and a shape. -/
  | ambiguousFields (field : String)
  /-- A schema without roots. -/
  | noRoots
deriving DecidableEq, Repr

/-- The text of a fault. -/
def SchemaFault.message : SchemaFault → String
  | tree fault => fault.message
  | cyclicShape shape => "shape '" ++ shape ++ "' refers to itself"
  | unknownOverride field member =>
    "field '" ++ field ++ "': default override names unknown member '" ++ member ++ "'"
  | ambiguousFields field =>
    "field '" ++ field ++ "': give either 'fields' or 'shape', not both"
  | noRoots => "schema defines no roots"

namespace Data.Datum

/-- How numbers are written in the text of a default. -/
def spelling : Spelling := ⟨-4, 16, "e", ".inf", "-.inf", ".nan"⟩

/-- A datum as the text of a default : a text itself, or a number if the kind holds
numbers. -/
def asText? (numeric : Bool) : Datum → Option String
  | text s => some s
  | int n => if numeric then some (toString n) else none
  | real x => if numeric then some (spelling.text x) else none
  | _ => none

/-- A datum as the default of a kind, if it fits. -/
def asValue? (kind : Kind) : Datum → Option Value
  | null => some .null
  | d =>
    match kind with
    | .bool => match d with
      | bool b => some (.bool b)
      | _ => none
    | .int => match d with
      | int n =>
        if Int64.minValue.toInt ≤ n && n ≤ Int64.maxValue.toInt then
          some (.int (Int64.ofInt n))
        else none
      | _ => none
    | .float | .intArray | .floatArray => (d.asText? true).map .text
    | .string | .color | .stringArray | .colorArray => (d.asText? false).map .text
    | .struct | .compact | .array | .comment => none

end Data.Datum

/-- The default of a setting with a name and a kind. -/
def convert (name : String) (kind : Kind) : Option Datum → Except Fault Value
  | none => .ok .null
  | some d => match d.asValue? kind with
    | some v => .ok v
    | none => .error (.defaultMismatch name kind)

namespace Attributes

/-- Apply `f` to what is there. -/
def withSome {α : Type} (x : Option α) (f : α → Setting → Setting) (s : Setting) : Setting :=
  match x with
  | some a => f a s
  | none => s

/-- A setting with the attributes that a definition gives beyond name, kind and
comment. -/
def dress (a : Attributes) (s : Setting) : Setting :=
  let s := withSome a.structName Setting.withStructName s
  let s := withSome a.doc Setting.withDoc s
  let s := withSome a.version Setting.withVersion s
  let s := if a.internal then s.asInternal else s
  if a.expert then s.asExpert else s

end Attributes

namespace Definition

/-- The setting of a definition with a known kind. The settings of a composite are
`children`, those of its list or of its shape. -/
def settingOf (a : Attributes) (kind : Kind)
    (children : Except SchemaFault (List Setting)) : Except SchemaFault Setting :=
  if kind.isComposite then
    if a.given.isSome then .error (.tree (.defaultMismatch a.name kind))
    else match children with
      | .error e => .error e
      | .ok cs => .ok (a.dress (.makeGroup a.name kind cs a.comment))
  else if kind = .comment then .ok (a.dress (.make a.name kind .null a.comment))
  else match convert a.name kind a.given with
    | .error e => .error (.tree e)
    | .ok v => .ok (a.dress (.make a.name kind v a.comment))

mutual

/-- The setting of a definition, given how the shape of a site is expanded. -/
def resolve (expand : Attributes → String → Except SchemaFault (List Setting)) :
    Definition → Except SchemaFault Setting
  | plain a =>
    match Kind.ofTag? a.type with
    | none => .error (.tree (.unknownType a.name a.type))
    | some kind => settingOf a kind <| match a.shape with
      | some shape => expand a shape
      | none => .error (.tree (.danglingStruct a.name (a.structName.getD a.name)))
  | inline a fields =>
    match Kind.ofTag? a.type with
    | none => .error (.tree (.unknownType a.name a.type))
    | some kind => settingOf a kind <| match a.shape with
      | some _ => .error (.ambiguousFields a.name)
      | none => resolveAll expand fields

/-- The settings of a list of definitions. -/
def resolveAll (expand : Attributes → String → Except SchemaFault (List Setting)) :
    List Definition → Except SchemaFault (List Setting)
  | [] => .ok []
  | d :: ds =>
    match d.resolve expand with
    | .error e => .error e
    | .ok s => match resolveAll expand ds with
      | .error e => .error e
      | .ok ss => .ok (s :: ss)

end

end Definition

/-! ## Overrides at a site -/

/-- The settings of a shape with the default of the first member of a name replaced. -/
def overrideMember (field member : String) (d : Datum) :
    List Setting → Except SchemaFault (List Setting)
  | [] => .error (.unknownOverride field member)
  | c :: cs =>
    if c.info.name = member then
      match convert c.info.name c.info.kind (some d) with
      | .error e => .error (.tree e)
      | .ok v => .ok (c.withValue v :: cs)
    else match overrideMember field member d cs with
      | .error e => .error e
      | .ok cs => .ok (c :: cs)

/-- The settings of a shape with all defaults replaced that a site gives anew. -/
def overrideMembers (field : String) :
    List (String × Datum) → List Setting → Except SchemaFault (List Setting)
  | [], cs => .ok cs
  | (member, d) :: rest, cs =>
    match overrideMember field member d cs with
    | .error e => .error e
    | .ok cs => overrideMembers field rest cs

namespace Schema

/-! ## Shapes -/

/-- How many shapes are not being expanded. -/
def unopened (shapes : List (String × List Definition)) (opened : List String) : Nat :=
  shapes.countP fun s => decide (s.1 ∉ opened)

theorem unopened_append (l l' : List (String × List Definition)) (opened : List String) :
    unopened (l ++ l') opened = unopened l opened + unopened l' opened :=
  List.countP_append

/-- Opening a shape that there is leaves fewer. -/
theorem unopened_cons_lt {shapes : List (String × List Definition)} {opened : List String}
    {shape : String} {defs : List Definition} (hdefs : shapes.lookup shape = some defs)
    (hopen : shape ∉ opened) : unopened shapes (shape :: opened) < unopened shapes opened := by
  obtain ⟨before, after, rfl, -⟩ := List.lookup_eq_some_iff.mp hdefs
  have hmono : ∀ l : List (String × List Definition),
      unopened l (shape :: opened) ≤ unopened l opened := fun l =>
    List.countP_mono_left fun s _ hs => by simp_all
  have hbefore := hmono before
  have hafter := hmono after
  have hhere : unopened [(shape, defs)] (shape :: opened) = 0 := by simp [unopened]
  have hhere' : unopened [(shape, defs)] opened = 1 := by simp [unopened, hopen]
  rw [← List.singleton_append, unopened_append, unopened_append, unopened_append, unopened_append]
  omega

/-- The settings of a shape at a site, where `opened` are the shapes being expanded. -/
def expand (shapes : List (String × List Definition)) (opened : List String)
    (a : Attributes) (shape : String) : Except SchemaFault (List Setting) :=
  match _ : shapes.lookup shape with
  | none => .error (.tree (.danglingStruct a.name shape))
  | some defs =>
    if _ : shape ∈ opened then .error (.cyclicShape shape)
    else match Definition.resolveAll
        (fun site inner => expand shapes (shape :: opened) site inner) defs with
      | .error e => .error e
      | .ok cs => overrideMembers a.name a.overrides.entries cs
termination_by unopened shapes opened
decreasing_by exact unopened_cons_lt ‹_› ‹_›

section

variable {shapes : List (String × List Definition)} {opened : List String} {a : Attributes}
  {shape : String} {defs : List Definition}

theorem expand_of_lookup_none (hdefs : shapes.lookup shape = none) :
    expand shapes opened a shape = .error (.tree (.danglingStruct a.name shape)) := by
  rw [expand]
  split
  · rfl
  · next h => simp [hdefs] at h

theorem expand_of_mem (hdefs : shapes.lookup shape = some defs) (hopen : shape ∈ opened) :
    expand shapes opened a shape = .error (.cyclicShape shape) := by
  rw [expand]
  split
  · next h => simp [hdefs] at h
  · rw [dif_pos hopen]

theorem expand_of_not_mem (hdefs : shapes.lookup shape = some defs) (hopen : shape ∉ opened) :
    expand shapes opened a shape =
      match Definition.resolveAll (expand shapes (shape :: opened)) defs with
      | .error e => .error e
      | .ok cs => overrideMembers a.name a.overrides.entries cs := by
  rw [expand]
  split
  · next h => simp [hdefs] at h
  · next h =>
    obtain rfl := Option.some.inj (hdefs.symm.trans h)
    rw [dif_neg hopen]

end

/-- The settings that a schema defines. -/
def resolve (s : Schema) : Except SchemaFault (List Setting) :=
  if s.roots.isEmpty then .error .noRoots
  else Definition.resolveAll (expand s.shapes []) s.roots

end Schema

end SettingsCompiler
