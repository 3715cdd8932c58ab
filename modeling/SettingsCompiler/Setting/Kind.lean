/-!
# Kinds of settings

A setting is of one of thirteen kinds, each written by its tag in a schema and in the
generated metadata. `Kind.ofTag?` reads back exactly the tags (`ofTag?_eq_some_iff`).
Three kinds are composite : their default is a list of settings. `Kind.target` is the
type that a setting has as a member of a generated struct.
-/

namespace SettingsCompiler

/-- What a setting holds. -/
inductive Kind
  | bool
  | int
  | float
  | string
  | color
  | struct
  | compact
  | array
  | comment
  | intArray
  | floatArray
  | stringArray
  | colorArray
deriving DecidableEq, Repr

namespace Kind

/-- Every kind, in the order of the tags. -/
def all : List Kind :=
  [bool, int, float, string, color, struct, compact, array, comment, intArray, floatArray,
    stringArray, colorArray]

/-- The spelling of a kind. -/
def tag : Kind → String
  | bool => "Bool"
  | int => "Int"
  | float => "Float"
  | string => "String"
  | color => "Color"
  | struct => "Struct"
  | compact => "Compact"
  | array => "Array"
  | comment => "Comment"
  | intArray => "IntArray"
  | floatArray => "FloatArray"
  | stringArray => "StringArray"
  | colorArray => "ColorArray"

/-- The kind with the given spelling. -/
def ofTag? (tag : String) : Option Kind :=
  all.find? (·.tag == tag)

theorem mem_all : ∀ k : Kind, k ∈ all := by
  intro k
  cases k <;> decide

theorem tag_injective {k l : Kind} (h : k.tag = l.tag) : k = l := by
  revert h
  cases k <;> cases l <;> decide

theorem ofTag?_eq_some_iff {s : String} {k : Kind} : ofTag? s = some k ↔ k.tag = s := by
  constructor
  · intro h
    simpa using List.find?_some h
  · rintro rfl
    cases hf : ofTag? k.tag with
    | none => simpa using List.find?_eq_none.mp hf k (mem_all k)
    | some l =>
      have : l.tag = k.tag := by simpa using List.find?_some hf
      rw [tag_injective this]

/-- The kinds whose default is a list of settings. -/
def isComposite : Kind → Bool
  | struct | compact | array => true
  | _ => false

/-- The kinds whose default is written as text. -/
def isTextual : Kind → Bool
  | float | string | color | intArray | floatArray | stringArray | colorArray => true
  | _ => false

/-- The type of a struct member of this kind ; composites refer to `structName`. -/
def target (structName : String) : Kind → String
  | bool => "bool"
  | int => "int"
  | float => "float"
  | string | color => "char*"
  | struct | compact => structName
  | array => "Vec<" ++ structName ++ "*>*"
  | comment => ""
  | intArray => "Vec<int>*"
  | floatArray => "Vec<float>*"
  | stringArray | colorArray => "Vec<char*>*"

end Kind

end SettingsCompiler
