import SettingsCompiler.Data.Datum

/-!
# Schemas as written

A schema file defines the roots of a tree of settings and shapes, named lists of
definitions that a composite can use in place of a list of its own. A site that uses a
shape may give the defaults of its members anew : these `Overrides` are kept in the order
of their names, each name once, and `get?_insert` says what an insertion changes.
-/

namespace SettingsCompiler

open Data

/-! ## Overrides -/

/-- Defaults by name, in the order of the names. -/
structure Overrides where
  entries : List (String × Datum)
  sorted : entries.Pairwise fun a b => a.1 < b.1

namespace Overrides

/-- No name is given two defaults. -/
theorem pairwise_ne (o : Overrides) : o.entries.Pairwise fun a b => a.1 ≠ b.1 := by
  refine o.sorted.imp fun {a b} hlt he => ?_
  rw [he] at hlt
  exact String.lt_irrefl b.1 hlt

/-- No default is given anew. -/
def empty : Overrides := ⟨[], .nil⟩

/-- Entries with a default added, in place of one of the same name. -/
def insertEntry (name : String) (d : Datum) : List (String × Datum) → List (String × Datum)
  | [] => [(name, d)]
  | (other, e) :: rest =>
    if name < other then (name, d) :: (other, e) :: rest
    else if name = other then (name, d) :: rest
    else (other, e) :: insertEntry name d rest

theorem mem_insertEntry {name : String} {d : Datum} :
    ∀ {entries : List (String × Datum)} {x : String × Datum},
      x ∈ insertEntry name d entries → x = (name, d) ∨ x ∈ entries
  | [], x, h => by simpa [insertEntry] using h
  | (other, e) :: rest, x, h => by
    unfold insertEntry at h
    split at h
    · simpa using h
    · split at h
      · rcases List.mem_cons.mp h with h | h
        · exact .inl h
        · exact .inr (List.mem_cons_of_mem _ h)
      · rcases List.mem_cons.mp h with h | h
        · exact .inr (h ▸ List.mem_cons_self)
        · exact (mem_insertEntry h).imp id (List.mem_cons_of_mem _)

theorem lt_of_not_lt_of_ne {a b : String} (h : ¬ a < b) (hne : a ≠ b) : b < a := by
  rcases Classical.em (b < a) with hb | hb
  · exact hb
  · exact absurd (String.le_antisymm (String.not_lt.mp hb) (String.not_lt.mp h)) hne

theorem sorted_insertEntry (name : String) (d : Datum) :
    ∀ {entries : List (String × Datum)}, (entries.Pairwise fun a b => a.1 < b.1) →
      (insertEntry name d entries).Pairwise fun a b => a.1 < b.1
  | [], _ => by simp [insertEntry]
  | (other, e) :: rest, h => by
    obtain ⟨hfirst, hrest⟩ := List.pairwise_cons.mp h
    unfold insertEntry
    split
    · next hlt =>
      refine List.pairwise_cons.mpr ⟨?_, h⟩
      intro x hx
      rcases List.mem_cons.mp hx with rfl | hx
      · exact hlt
      · exact String.lt_trans hlt (hfirst x hx)
    · next hlt =>
      split
      · next heq => exact List.pairwise_cons.mpr ⟨fun x hx => heq ▸ hfirst x hx, hrest⟩
      · next hne =>
        refine List.pairwise_cons.mpr ⟨?_, sorted_insertEntry name d hrest⟩
        intro x hx
        rcases mem_insertEntry hx with rfl | hx
        · exact lt_of_not_lt_of_ne hlt hne
        · exact hfirst x hx

/-- The overrides with a default added, in place of one of the same name. -/
def insert (o : Overrides) (name : String) (d : Datum) : Overrides :=
  ⟨insertEntry name d o.entries, sorted_insertEntry name d o.sorted⟩

/-- The default given anew for a name. -/
def get? (o : Overrides) (name : String) : Option Datum :=
  o.entries.lookup name

theorem lookup_insertEntry (name other : String) (d : Datum) :
    ∀ entries : List (String × Datum), (entries.Pairwise fun a b => a.1 < b.1) →
      (insertEntry name d entries).lookup other =
        if other = name then some d else entries.lookup other
  | [], _ => by
    by_cases h : other = name
    · simp [insertEntry, h]
    · have hb : (other == name) = false := by simpa using h
      simp [insertEntry, List.lookup_cons, hb, h]
  | (first, e) :: rest, hs => by
    have ih := lookup_insertEntry name other d rest (List.pairwise_cons.mp hs).2
    unfold insertEntry
    split
    · by_cases h : other = name
      · simp [h]
      · have hb : (other == name) = false := by simpa using h
        simp [List.lookup_cons, hb, h]
    · split
      · next heq =>
        subst heq
        by_cases h : other = name
        · simp [h]
        · have hb : (other == name) = false := by simpa using h
          simp [List.lookup_cons, hb, h]
      · next hne =>
        by_cases h : other = first
        · subst h
          simp [Ne.symm hne]
        · have hb : (other == first) = false := by simpa using h
          simp [List.lookup_cons, hb, ih]

theorem get?_insert (o : Overrides) (name other : String) (d : Datum) :
    (o.insert name d).get? other = if other = name then some d else o.get? other :=
  lookup_insertEntry name other d o.entries o.sorted

/-- The overrides with the given entries ; of two with one name the later counts. -/
def ofEntries (entries : List (String × Datum)) : Overrides :=
  entries.foldl (fun o e => o.insert e.1 e.2) empty

end Overrides

/-! ## Definitions -/

/-- What the definition of a setting says about the setting itself. -/
structure Attributes where
  name : String
  /-- The tag of the kind. -/
  type : String
  /-- The default, unless it is left out. -/
  given : Option Datum
  comment : String
  doc : Option String
  internal : Bool
  expert : Bool
  version : Option String
  structName : Option String
  /-- The shape whose definitions are the settings of a composite. -/
  shape : Option String
  overrides : Overrides

/-- The definition of a setting, with a list of definitions of its own or without. -/
inductive Definition
  | plain (attributes : Attributes)
  | inline (attributes : Attributes) (fields : List Definition)

/-- What the definition says about the setting itself. -/
def Definition.attributes : Definition → Attributes
  | plain a => a
  | inline a _ => a

/-- A schema file : shapes by name, and roots. -/
structure Schema where
  shapes : List (String × List Definition)
  roots : List Definition

end SettingsCompiler
