import SettingsCompiler.Text.Lowercase

/-!
# Names derived from other names

A member's identifier, the struct of an array's elements and the identifier of a version
are all spelled from one name : `lowerCamel`, `singular` and `docId`.
-/

namespace SettingsCompiler.Name

/-- The identifier of a member : the name with its first letter in lower case. The
name `URL` becomes `url` as a whole. -/
def lowerCamel (name : String) : String :=
  if name = "URL" then "url"
  else match name.toList with
    | [] => ""
    | c :: cs => String.ofList (Text.lowercase c ++ cs)

/-- A text without one final `s` ; nothing if it does not end in one. -/
def stem? : List Char → Option (List Char)
  | [] => none
  | [c] => if c = 's' then some [] else none
  | c :: d :: cs => (stem? (d :: cs)).map (c :: ·)

/-- The name of one element of a list of things. -/
def singular (name : String) : String :=
  match stem? name.toList with
  | some stem => String.ofList stem
  | none => name

/-- A version as part of a page name : hyphens for dots. -/
def docId (version : String) : String :=
  String.ofList (version.toList.map fun c => if c = '.' then '-' else c)

theorem stem?_eq_some_iff : ∀ {cs stem : List Char}, stem? cs = some stem ↔ cs = stem ++ ['s']
  | [], stem => by simp [stem?]
  | [c], stem => by
    cases stem with
    | nil => simp [stem?]
    | cons d ds => simp [stem?]
  | c :: d :: cs, stem => by
    cases stem with
    | nil => simp [stem?]
    | cons e es =>
      simp only [stem?, Option.map_eq_some_iff, stem?_eq_some_iff, List.cons_append,
        List.cons.injEq]
      constructor
      · rintro ⟨a, ha, rfl, rfl⟩
        exact ⟨rfl, ha⟩
      · rintro ⟨rfl, h⟩
        exact ⟨es, h, rfl, rfl⟩

end SettingsCompiler.Name
