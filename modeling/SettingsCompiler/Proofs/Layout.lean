import SettingsCompiler.Proofs.Ownership
import SettingsCompiler.Proofs.Tabulation

/-!
# Positions in tables and structs

The pass over the structs writes members down, the pass over the tables only counts them.
Both walk the same list of settings, so the count in front of a setting (`slot`) is the
position of its first member. Slots never go down (`slot_mono`) and every member belongs
to one setting (`exists_slot_le`, `slot_unique`), which settles the positions that rows
refer to (`mem_slots_iff`) and those left out (`not_mem_slots_iff`).

`mirrorsMembers` says this of the last struct and the last table of a root, its own.
-/

namespace SettingsCompiler

open Header

namespace Setting

/-! ## Members at slots -/

theorem length_flatMap_membersOf (cs : List Setting) :
    (cs.flatMap fun c => membersOf c.info).length = slot cs cs.length := by
  rw [slot, List.take_length]

/-- The members of a setting stand from its slot on. -/
theorem getElem?_flatMap_membersOf {c : Setting} {d : Nat} (hd : d < (membersOf c.info).length) :
    ∀ {cs : List Setting} {i : Nat}, cs[i]? = some c →
      (cs.flatMap fun c => membersOf c.info)[slot cs i + d]? = (membersOf c.info)[d]?
  | c' :: cs, 0, hc => by
    obtain rfl := Option.some.inj hc
    rw [slot_zero, Nat.zero_add, List.flatMap_cons, List.getElem?_append_left hd]
  | c' :: cs, i + 1, hc => by
    rw [List.flatMap_cons, slot_cons_succ, ← length_membersOf, Nat.add_assoc,
      List.getElem?_append_right (Nat.le_add_right _ _), Nat.add_sub_cancel_left]
    exact getElem?_flatMap_membersOf hd (by simpa using hc)

/-- Each setting takes its members' room in front of the slots of later ones. -/
theorem slot_succ {c : Setting} : ∀ {cs : List Setting} {i : Nat}, cs[i]? = some c →
    slot cs (i + 1) = slot cs i + memberCount c.info.kind
  | c' :: cs, 0, hc => by
    obtain rfl := Option.some.inj hc
    simp
  | c' :: cs, i + 1, hc => by
    rw [slot_cons_succ, slot_cons_succ, slot_succ (by simpa using hc), Nat.add_assoc]

/-- Slots never go down. -/
theorem slot_mono (cs : List Setting) {i j : Nat} (hij : i ≤ j) : slot cs i ≤ slot cs j := by
  induction cs generalizing i j with
  | nil => simp [slot]
  | cons c cs ih =>
    cases i with
    | zero => simp
    | succ i =>
      obtain ⟨j, rfl⟩ : ∃ j', j = j' + 1 := ⟨j - 1, by omega⟩
      have := ih (Nat.le_of_succ_le_succ hij)
      simp only [slot_cons_succ]
      omega

/-- Every member is one of a setting. -/
theorem exists_slot_le : ∀ {cs : List Setting} {k : Nat}, k < slot cs cs.length →
    ∃ i c, cs[i]? = some c ∧ slot cs i ≤ k ∧ k < slot cs (i + 1)
  | [], k, hk => by simp at hk
  | c :: cs, k, hk => by
    rw [List.length_cons, slot_cons_succ] at hk
    by_cases hfirst : k < memberCount c.info.kind
    · exact ⟨0, c, rfl, by simp, by simpa using hfirst⟩
    · have hrest : k - memberCount c.info.kind < slot cs cs.length := by omega
      obtain ⟨i, c', hc', hle, hlt⟩ := exists_slot_le hrest
      refine ⟨i + 1, c', by simpa using hc', ?_, ?_⟩
      · rw [slot_cons_succ]
        omega
      · rw [slot_cons_succ]
        omega

/-- The setting that a member belongs to is the only one. -/
theorem slot_unique {cs : List Setting} {i j k : Nat} (hi : slot cs i ≤ k)
    (hi' : k < slot cs (i + 1)) (hj : slot cs j ≤ k) (hj' : k < slot cs (j + 1)) : i = j := by
  rcases Nat.lt_trichotomy i j with h | h | h
  · have : slot cs (i + 1) ≤ slot cs j := slot_mono cs h
    omega
  · exact h
  · have : slot cs (j + 1) ≤ slot cs i := slot_mono cs h
    omega

theorem memberCount_pos {c : Setting} (h : c.isComment = false) :
    0 < memberCount c.info.kind := by
  unfold isComment at h
  unfold memberCount
  split <;> simp_all

/-- Only a color has a second member. -/
theorem eq_color_of_one_lt {k : Kind} (h : 1 < memberCount k) :
    k = .color ∧ memberCount k = 2 := by
  cases k <;> simp_all [memberCount]

end Setting

/-! ## Positions in rows -/

/-- The position that a row refers to. -/
def Header.Row.index? (row : Row) : Option Nat :=
  match row.offset with
  | .member _ index => some index
  | .noStorage => none

namespace Setting

/-- Whether a setting has a row with a position. -/
def isStored (c : Setting) : Bool :=
  !c.isComment && !c.info.internal

/-- The settings of a list that have a row with a position, each with its own position. -/
def stored (cs : List Setting) : List (Setting × Nat) :=
  cs.zipIdx.filter fun e => e.1.isStored

theorem mem_stored_iff {cs : List Setting} {c : Setting} {i : Nat} :
    (c, i) ∈ stored cs ↔ cs[i]? = some c ∧ c.isComment = false ∧ c.info.internal = false := by
  simp [stored, isStored, List.mem_zipIdx_iff_getElem?]

/-- The listed settings that are no comments are those stored. -/
theorem filter_listed (cs : List Setting) :
    (listed 0 cs).filter (fun e => !e.1.isComment) = stored cs := by
  rw [listed, stored, List.filter_filter]
  refine List.filter_congr fun e _ => ?_
  cases hcom : e.1.isComment <;> simp [isListed, isStored, hcom]

/-- A row that shows a setting refers to its slot, unless it is a comment. -/
theorem Shows.index? {slot : Nat} {table : TableName} {c : Setting} {row : Row}
    (h : Shows slot table c row) : row.index? = if c.isComment then none else some slot := by
  rw [Row.index?, h.offset]
  cases c.isComment <;> rfl

section

variable {R : Setting × Nat → Row → Prop} {slotAt : Nat → Nat} {l : List (Setting × Nat)}
  {rows : List Row}

/-- The rows with a position belong to the settings that are no comments. -/
theorem forall₂_filter_index?
    (hR : ∀ {e row}, R e row → row.index? = if e.1.isComment then none else some (slotAt e.2))
    (h : List.Forall₂ R l rows) :
    List.Forall₂ R (l.filter fun e => !e.1.isComment)
      (rows.filter fun row => row.index?.isSome) := by
  refine List.rel_filter (fun {e row} hrow => ?_) h
  simp only [hR hrow]
  cases e.1.isComment <;> simp

/-- What rows say where they have a position, they say of settings that are no comments. -/
theorem filterMap_of_forall₂ {α : Type} {said : Row → Option α} {of : Setting × Nat → α}
    (hR : ∀ {e row}, R e row → said row = if e.1.isComment then none else some (of e))
    (h : List.Forall₂ R l rows) :
    rows.filterMap said = (l.filter fun e => !e.1.isComment).map of := by
  induction h with
  | nil => rfl
  | @cons e row l rows hrow _ ih =>
    rw [List.filterMap_cons, List.filter_cons, hR hrow, ih]
    cases e.1.isComment <;> rfl

end

theorem pairwise_zipIdx (cs : List Setting) (i : Nat) :
    (cs.zipIdx i).Pairwise fun a b => a.2 < b.2 := by
  induction cs generalizing i with
  | nil => exact .nil
  | cons c cs ih =>
    rw [List.zipIdx_cons, List.pairwise_cons]
    exact ⟨fun e he => List.le_snd_of_mem_zipIdx he, ih (i + 1)⟩

/-- The slots of stored settings go up. -/
theorem pairwise_slot_stored (cs : List Setting) :
    ((stored cs).map fun e => slot cs e.2).Pairwise (· < ·) := by
  rw [List.pairwise_map]
  refine ((pairwise_zipIdx cs 0).filter _).imp_of_mem fun {e e'} he _ hlt => ?_
  obtain ⟨hget, hcom, -⟩ := mem_stored_iff.mp he
  have hpos := memberCount_pos hcom
  have hsucc := slot_succ hget
  have hmono : slot cs (e.2 + 1) ≤ slot cs e'.2 := slot_mono cs hlt
  omega

/-- A member stands at the slot of a stored setting if its own setting is stored and it is
the first member of it. -/
theorem mem_slots_iff {cs : List Setting} {c : Setting} {i k : Nat} (hc : cs[i]? = some c)
    (hle : slot cs i ≤ k) (hlt : k < slot cs (i + 1)) :
    k ∈ (stored cs).map (fun e => slot cs e.2) ↔ c.info.internal = false ∧ k = slot cs i := by
  have hsucc := slot_succ hc
  rw [List.mem_map]
  constructor
  · rintro ⟨⟨c', j⟩, hstored, rfl⟩
    obtain ⟨hc', hcom', hint'⟩ := mem_stored_iff.mp hstored
    have hpos' := memberCount_pos hcom'
    have hsucc' := slot_succ hc'
    obtain rfl : i = j := slot_unique hle hlt (Nat.le_refl _) (by dsimp only; omega)
    obtain rfl := Option.some.inj (hc.symm.trans hc')
    exact ⟨hint', rfl⟩
  · rintro ⟨hint, rfl⟩
    have hcom : c.isComment = false := by
      by_contra hcom
      rw [Bool.not_eq_false, isComment, beq_iff_eq] at hcom
      rw [hsucc, hcom] at hlt
      exact Nat.lt_irrefl _ hlt
    exact ⟨(c, i), mem_stored_iff.mpr ⟨hc, hcom, hint⟩, rfl⟩

/-- The members without a row are those of internal settings and the second of colors. -/
theorem not_mem_slots_iff {cs : List Setting} {k : Nat} (hk : k < slot cs cs.length) :
    k ∉ (stored cs).map (fun e => slot cs e.2) ↔
      (∃ i c, cs[i]? = some c ∧ c.info.internal = true ∧ slot cs i ≤ k ∧ k < slot cs (i + 1)) ∨
        ∃ i c, cs[i]? = some c ∧ c.info.kind = .color ∧ k = slot cs i + 1 := by
  obtain ⟨i, c, hc, hle, hlt⟩ := exists_slot_le hk
  have hsucc := slot_succ hc
  rw [mem_slots_iff hc hle hlt]
  constructor
  · intro hunused
    cases hint : c.info.internal with
    | true => exact Or.inl ⟨i, c, hc, hint, hle, hlt⟩
    | false =>
      have hne : k ≠ slot cs i := fun he => hunused ⟨hint, he⟩
      obtain ⟨hcolor, htwo⟩ := eq_color_of_one_lt (k := c.info.kind) (by omega)
      exact Or.inr ⟨i, c, hc, hcolor, by omega⟩
  · rintro (⟨j, c', hc', hint, hle', hlt'⟩ | ⟨j, c', hc', hkind, rfl⟩) ⟨hint', heq⟩
    · obtain rfl := slot_unique hle hlt hle' hlt'
      obtain rfl := Option.some.inj (hc.symm.trans hc')
      rw [hint] at hint'
      cases hint'
    · have hsucc' := slot_succ hc'
      rw [hkind, memberCount] at hsucc'
      obtain rfl := slot_unique hle hlt (Nat.le_succ _) (by omega)
      omega

/-- A setting with members holds itself in the first. -/
theorem getElem?_slot {cs : List Setting} {c : Setting} {i : Nat} (hc : cs[i]? = some c)
    (hcom : c.isComment = false) :
    (cs.flatMap fun c => membersOf c.info)[slot cs i]? = some (.of c.info) := by
  have hpos : 0 < (membersOf c.info).length := by
    rw [length_membersOf]
    exact memberCount_pos hcom
  have hget := getElem?_flatMap_membersOf hpos hc
  rw [Nat.add_zero] at hget
  rw [hget]
  unfold isComment at hcom
  unfold membersOf
  split <;> simp_all

/-! ## The table and the struct of a root -/

/-- The last definition of a root is its own. -/
theorem getLast?_structDefs {root : Setting} {r r' : Registry} {ds : List StructDef}
    (h : root.structDefs.runFrom r = (.ok ds, r')) :
    ds.getLast? = some (.of root.info root.children) := by
  obtain ⟨-, hds, -⟩ := structDefs_ok h
  rw [hds]
  cases root <;> simp [origins, Origin.definition, children]

/-- The last table of a root is its own. -/
theorem describes_last {root : Setting} {r r' : Registry} {ts : List Table}
    (h : root.tables.runFrom r = (.ok ts, r')) :
    ∃ t, ts.getLast? = some t ∧ Describes (numbered r root.preorder) ⟨[], root⟩ t := by
  have hts := describes_of_tables h
  rw [postorder_eq, ← List.forall₂_reverse_iff, List.reverse_append, List.reverse_singleton,
    List.singleton_append, List.forall₂_cons_left_iff] at hts
  obtain ⟨t, rest, hd, -, hrev⟩ := hts
  refine ⟨t, ?_, hd⟩
  rw [List.getLast?_eq_head?_reverse, hrev]
  rfl

theorem exists_last_table {root : Setting} {r r' : Registry} {ts : List Table}
    (h : root.tables.runFrom r = (.ok ts, r')) :
    ∃ t names, ts.getLast? = some t ∧ Describes names ⟨[], root⟩ t := by
  obtain ⟨t, hlast, hd⟩ := describes_last h
  exact ⟨t, _, hlast, hd⟩

/-- The table `t` of a composite follows the members of its struct `d` : the rows with a
position belong to the settings that are neither comments nor internal, in order, and each
refers to the member that holds its setting. No row refers to the members of internal
settings and to the second members of colors. -/
structure MirrorsMembers (root : Setting) (d : StructDef) (t : Table) : Prop where
  name : d.name = root.info.structName
  structName : t.structName = root.info.structName
  members : d.members = root.children.flatMap fun c => membersOf c.info
  rows : List.Forall₂ (fun e row =>
      row.offset = .member e.1.info.ident (slot root.children e.2) ∧
      ∃ m, d.members[slot root.children e.2]? = some m ∧ m.ident = e.1.info.ident ∧
        m.ty = e.1.info.target)
    (stored root.children) (t.rows.filter fun row => row.index?.isSome)
  increasing : (t.rows.filterMap Row.index?).Pairwise (· < ·)
  unused : ∀ k, k < d.members.length → (k ∉ t.rows.filterMap Row.index? ↔
    (∃ i c, root.children[i]? = some c ∧ c.info.internal = true ∧
      slot root.children i ≤ k ∧ k < slot root.children (i + 1)) ∨
    ∃ i c, root.children[i]? = some c ∧ c.info.kind = .color ∧ k = slot root.children i + 1)

/-- The positions in a table are the slots of the stored settings, in order. -/
theorem Describes.filterMap_index? {names : List Nat → String → TableName} {site : Site}
    {t : Table} (h : Describes names site t) :
    t.rows.filterMap Row.index? =
      (stored site.setting.children).map fun e => slot site.setting.children e.2 := by
  rw [← filter_listed]
  exact filterMap_of_forall₂ Shows.index? h.rows

/-- The rows of a table with a position, and the settings they belong to. -/
theorem Describes.forall₂_stored {names : List Nat → String → TableName} {site : Site}
    {t : Table} (h : Describes names site t) :
    List.Forall₂ (fun e row => row.offset = .member e.1.info.ident
        (slot site.setting.children e.2) ∧ e ∈ stored site.setting.children)
      (stored site.setting.children) (t.rows.filter fun row => row.index?.isSome) := by
  have hrows := forall₂_filter_index? Shows.index? h.rows
  rw [filter_listed] at hrows
  have hboth := (List.forall₂_and_left (p := (· ∈ stored site.setting.children)) _ _).mpr
    ⟨fun _ he => he, hrows⟩
  refine hboth.imp fun e row ⟨he, hrow⟩ => ⟨?_, he⟩
  obtain ⟨-, hcom, -⟩ := mem_stored_iff.mp he
  rw [hrow.offset, hcom]
  rfl

/-- The table of a root follows the members of its struct, as slots do. -/
theorem Describes.mirrors {root : Setting} {names : List Nat → String → TableName}
    {t : Table} (h : Describes names ⟨[], root⟩ t) :
    MirrorsMembers root (.of root.info root.children) t where
  name := rfl
  structName := h.structName
  members := rfl
  rows := by
    refine h.forall₂_stored.imp fun e row hrow => ⟨hrow.1, .of e.1.info, ?_, rfl, rfl⟩
    obtain ⟨hc, hcom, -⟩ := mem_stored_iff.mp hrow.2
    exact getElem?_slot hc hcom
  increasing := by
    rw [h.filterMap_index?]
    exact pairwise_slot_stored root.children
  unused k hk := by
    have hlen : (StructDef.of root.info root.children).members.length =
        slot root.children root.children.length := length_flatMap_membersOf root.children
    rw [h.filterMap_index?]
    exact not_mem_slots_iff (hlen ▸ hk)

/-- From any two registries, the last struct and the last table of a root fit together, member by
member. -/
theorem mirrorsMembers {root : Setting} {r₁ r₁' r₂ r₂' : Registry} {ds : List StructDef}
    {ts : List Table} (hs : root.structDefs.runFrom r₁ = (.ok ds, r₁'))
    (ht : root.tables.runFrom r₂ = (.ok ts, r₂')) :
    ∃ d t, ds.getLast? = some d ∧ ts.getLast? = some t ∧ MirrorsMembers root d t := by
  obtain ⟨t, names, hlast, hdesc⟩ := exists_last_table ht
  exact ⟨_, t, getLast?_structDefs hs, hlast, hdesc.mirrors⟩

/-- A comment, a color, an internal setting and a composite in front of a plain setting. -/
def window : Setting :=
  .makeGroup "Window" .struct [.make "" .comment .null "Colors",
    .make "Back" .color (.text "#fff") "", (Setting.make "Cache" .int (.int 1) "").asInternal,
    .makeGroup "Size" .compact [.make "Dx" .int (.int 1) ""] "",
    .make "Open" .bool (.bool true) ""] ""

/-- The members of `window` without a row are those of an internal setting and the second of a
color. -/
theorem mirrorsMembers_window :
    ∃ ds r ts r', window.structDefs.runFrom .empty = (.ok ds, r) ∧
      window.tables.runFrom .empty = (.ok ts, r') ∧
      ∃ d t, ds.getLast? = some d ∧ ts.getLast? = some t ∧ MirrorsMembers window d t := by
  have hstructs : window.structDefs.runFrom .empty = (.ok _, _) := rfl
  have htables : window.tables.runFrom .empty = (.ok _, _) := rfl
  exact ⟨_, _, _, _, hstructs, htables, mirrorsMembers hstructs htables⟩

end Setting
end SettingsCompiler
