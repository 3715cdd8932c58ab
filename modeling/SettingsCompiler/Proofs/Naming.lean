import SettingsCompiler.Proofs.Ownership
import SettingsCompiler.Proofs.Tabulation
import Mathlib.Data.List.Nodup

/-!
# Names of tables

A registry hands out the names of tables one after another (`allocations`), and never a pair of
a struct and a number twice (`nodup_allocations`). Over the roots of a header it hands out the
names for the structs of all visible composites (`perm_names_of_compileFrom`).

What is written in the header is not the pair but its spelling, the number between underscores
behind the struct. Two numbered names are spelled alike only if they are equal
(`numberedBase_inj`), but the first table of a struct is spelled without a number, and so a
struct may have the name of another with the number of one of its tables (`stem_inj_iff`). Such
structs are declared twice (`not_nodup_identifiers_taken`), and no others are (`namesApart`).
-/

namespace SettingsCompiler

namespace Header

/-! ## Spelling -/

/-- The spelling of a struct with the number of one of its tables behind it. -/
def numberedBase (base : String) (n : Nat) : String :=
  base ++ "_" ++ toString n ++ "_"

/-- The last two underscores of a numbered name stand around its number. -/
theorem toList_numberedBase (base : String) (n : Nat) :
    (numberedBase base n).toList = base.toList ++ '_' :: (Nat.toDigits 10 n ++ ['_']) := by
  rw [numberedBase, Nat.toString_eq_repr]
  simp only [String.toList_append, Nat.toList_repr, List.append_assoc]
  rfl

/-- A number is written without underscores. -/
theorem not_mem_toDigits (n : Nat) : '_' ∉ Nat.toDigits 10 n := by
  intro h
  have hdigit := Nat.isDigit_of_mem_toDigits (by decide) (by decide) h
  revert hdigit
  decide

/-- A text is cut at its last underscore in one way. -/
theorem append_cons_inj {c : Char} {a a' d d' : List Char} (hd : c ∉ d) (hd' : c ∉ d')
    (h : a ++ c :: d = a' ++ c :: d') : a = a' ∧ d = d' := by
  rcases List.append_eq_append_iff.mp h with ⟨e, rfl, he⟩ | ⟨e, rfl, he⟩
  · cases e with
    | nil => exact ⟨(List.append_nil a).symm, (List.cons.inj he).2⟩
    | cons x e =>
      obtain ⟨-, rfl⟩ := List.cons.inj he
      exact absurd (List.mem_append_right e List.mem_cons_self) hd
  · cases e with
    | nil => exact ⟨List.append_nil a', (List.cons.inj he).2.symm⟩
    | cons x e =>
      obtain ⟨-, rfl⟩ := List.cons.inj he
      exact absurd (List.mem_append_right e List.mem_cons_self) hd'

/-- Numbered names are spelled alike only if structs and numbers are equal. -/
theorem numberedBase_inj {b b' : String} {n n' : Nat}
    (h : numberedBase b n = numberedBase b' n') : b = b' ∧ n = n' := by
  have hlist := congrArg String.toList h
  rw [toList_numberedBase, toList_numberedBase, ← List.cons_append, ← List.cons_append,
    ← List.append_assoc, ← List.append_assoc] at hlist
  obtain ⟨hbase, hdigits⟩ := append_cons_inj (not_mem_toDigits n) (not_mem_toDigits n')
    (List.append_cancel_right hlist)
  have hvalue := congrArg (Nat.ofDigitChars 10 · 0) hdigits
  simp only [Nat.ofDigitChars_ten_toDigits] at hvalue
  exact ⟨String.toList_injective hbase, hvalue⟩

namespace TableName

/-- The text of a name behind the letter that all begin with. -/
def spelled (t : TableName) : String :=
  if t.occurrence = 0 then t.base else numberedBase t.base t.occurrence

theorem stem_eq (t : TableName) : t.stem = "g" ++ t.spelled := by
  rw [stem, spelled]
  split
  · rfl
  · simp only [numberedBase, String.append_assoc]

/-- The struct of `t` has the name of another with the number of one of its tables, `u`. -/
def TakesNameOf (t u : TableName) : Prop :=
  t.occurrence = 0 ∧ 0 < u.occurrence ∧ t.base = numberedBase u.base u.occurrence

/-- Two names are spelled alike if they are equal or one takes the name of the other. -/
theorem stem_inj_iff {t u : TableName} :
    t.stem = u.stem ↔ t = u ∨ t.TakesNameOf u ∨ u.TakesNameOf t := by
  obtain ⟨b, n⟩ := t
  obtain ⟨b', n'⟩ := u
  rw [stem_eq, stem_eq, String.append_right_inj]
  simp only [spelled, TakesNameOf, TableName.mk.injEq]
  cases n with
  | zero =>
    cases n' with
    | zero => simp
    | succ n' => simp
  | succ n =>
    cases n' with
    | zero => simp [eq_comm]
    | succ n' =>
      simp only [Nat.succ_ne_zero, if_false, false_and, or_false]
      exact ⟨numberedBase_inj, fun ⟨hb, hn⟩ => by rw [hb, hn]⟩

/-- The two identifiers of a table. -/
def identifiers (t : TableName) : List String :=
  [t.fieldsIdent, t.infoIdent]

/-- The identifier of the rows of a table is that of no table. -/
theorem fieldsIdent_ne_infoIdent (t u : TableName) : t.fieldsIdent ≠ u.infoIdent := by
  intro h
  have hlast := congrArg (fun s => s.toList.getLast?) h
  simp [fieldsIdent, infoIdent, String.toList_append] at hlast

theorem nodup_identifiers (t : TableName) : t.identifiers.Nodup := by
  simp [identifiers, fieldsIdent_ne_infoIdent]

/-- Two tables share an identifier exactly if their names are spelled alike. -/
theorem disjoint_identifiers_iff (t u : TableName) :
    t.identifiers.Disjoint u.identifiers ↔ t.stem ≠ u.stem := by
  have hfields : t.fieldsIdent = u.fieldsIdent ↔ t.stem = u.stem := String.append_left_inj _
  have hinfo : t.infoIdent = u.infoIdent ↔ t.stem = u.stem := String.append_left_inj _
  simp only [identifiers, List.disjoint_cons_left, List.disjoint_nil_left, List.mem_cons,
    List.not_mem_nil, or_false, hfields, hinfo, fieldsIdent_ne_infoIdent,
    (fieldsIdent_ne_infoIdent _ _).symm, false_or, and_true, and_self, ne_eq]

end TableName

open TableName

/-- Distinct names have distinct identifiers unless a struct takes a name. -/
theorem nodup_flatMap_identifiers_iff {ns : List TableName} (hns : ns.Nodup) :
    (ns.flatMap identifiers).Nodup ↔ ∀ t ∈ ns, ∀ u ∈ ns, ¬t.TakesNameOf u := by
  have hpairs : (ns.flatMap identifiers).Nodup ↔ (ns.map stem).Nodup := by
    rw [List.nodup_flatMap, List.Nodup, List.pairwise_map]
    refine ⟨fun h => h.2.imp (disjoint_identifiers_iff _ _).mp, fun h => ⟨?_, ?_⟩⟩
    · exact fun t _ => nodup_identifiers t
    · exact h.imp (disjoint_identifiers_iff _ _).mpr
  rw [hpairs, List.nodup_map_iff_inj_on hns]
  constructor
  · intro hinj t ht u hu htakes
    have heq := hinj t ht u hu (stem_inj_iff.mpr (.inr (.inl htakes)))
    have hzero := htakes.1
    rw [heq] at hzero
    exact absurd htakes.2.1 (by omega)
  · intro hfree t ht u hu hstem
    rcases stem_inj_iff.mp hstem with heq | htakes | htakes
    · exact heq
    · exact absurd htakes (hfree t ht u hu)
    · exact absurd htakes (hfree u hu t ht)

/-! ## Handing out names -/

/-- The names that a registry hands out for the tables of some structs, one after another. -/
def allocations (r : Registry) : List String → List TableName
  | [] => []
  | n :: ns => ⟨n, r.count n⟩ :: allocations (r.bump n) ns

theorem allocations_append : ∀ (ns ms : List String) (r : Registry),
    allocations r (ns ++ ms) = allocations r ns ++ allocations (r.bumpAll ns) ms
  | [], _, _ => rfl
  | n :: ns, ms, r => by
    rw [List.cons_append, allocations, allocations, allocations_append ns, Registry.bumpAll_cons,
      List.cons_append]

/-- The names of a struct are numbered from its count on. -/
theorem mem_allocations_iff {t : TableName} : ∀ {ns : List String} {r : Registry},
    t ∈ allocations r ns ↔
      r.count t.base ≤ t.occurrence ∧ t.occurrence < r.count t.base + ns.count t.base
  | [], r => by
    simp only [allocations, List.not_mem_nil, List.count_nil, Nat.add_zero, false_iff]
    omega
  | n :: ns, r => by
    rw [allocations, List.mem_cons, mem_allocations_iff, Registry.count_bump, List.count_cons]
    obtain ⟨b, k⟩ := t
    by_cases hn : n = b
    · subst hn
      simp only [TableName.mk.injEq, true_and, if_true, beq_self_eq_true]
      omega
    · have hbase : ¬(b = n ∧ k = r.count n) := fun h => hn h.1.symm
      simp [hn, hbase]

/-- No name is handed out twice, since each is registered when it is. -/
theorem nodup_allocations : ∀ (ns : List String) (r : Registry), (allocations r ns).Nodup
  | [], _ => .nil
  | n :: ns, r => by
    rw [allocations, List.nodup_cons]
    refine ⟨fun h => ?_, nodup_allocations ns _⟩
    have hcount := (mem_allocations_iff.mp h).1
    rw [Registry.count_bump, if_pos rfl] at hcount
    exact absurd hcount (by simp)

end Header

namespace Setting

open Header

/-! ## The names for a root -/

/-- Numbering by places hands out names one after another, if the places come in order. -/
theorem map_numbered (r : Registry) : ∀ (l before : List Site),
    (before ++ l).Pairwise (fun a b => a.path < b.path) →
    l.map (fun y => numbered r (before ++ l) y.path y.structName) =
      allocations (r.bumpAll (before.map Site.structName)) (l.map Site.structName)
  | [], _, _ => rfl
  | y :: l, before, hsorted => by
    obtain ⟨-, hrest, hbefore⟩ := List.pairwise_append.mp hsorted
    have hcount : countBefore (before ++ y :: l) y.path y.structName =
        (before.map Site.structName).count y.structName := by
      rw [countBefore_append, countBefore_eq_count y.structName
        fun z hz => hbefore z hz y List.mem_cons_self, countBefore_eq_zero, Nat.add_zero]
      intro z hz hlt
      rcases List.mem_cons.mp hz with rfl | hz
      · exact List.lt_irrefl _ hlt
      · exact List.lt_irrefl _ (List.lt_trans hlt ((List.pairwise_cons.mp hrest).1 z hz))
    have hsplit : before ++ y :: l = before ++ [y] ++ l := by simp
    have ih := map_numbered r l (before ++ [y]) (hsplit ▸ hsorted)
    rw [List.map_append, Registry.bumpAll_append, ← hsplit] at ih
    rw [List.map_cons, List.map_cons, allocations, ih, numbered, hcount, Registry.count_bumpAll]
    rfl

/-- The two orders list the same sites. -/
theorem postorder_perm (s : Setting) : s.postorder.Perm s.preorder := by
  refine (List.perm_ext_iff_of_nodup (.of_map _ (enumerates_postorder s).nodup)
    (.of_map _ (enumerates_preorder s).nodup)).mpr fun site => ?_
  exact mem_postorder_iff.trans mem_preorder_iff.symm

/-- The tables of a root have the names handed out for its visible composites. -/
theorem perm_names_of_tables {root : Setting} {r r' : Registry} {ts : List Table}
    (h : root.tables.runFrom r = (.ok ts, r')) :
    (ts.map Table.name).Perm (allocations r (root.preorder.map Site.structName)) := by
  have hnames : ts.map Table.name =
      root.postorder.map fun y => numbered r root.preorder y.path y.structName := by
    have hdescribed := describes_of_tables h
    clear h
    generalize root.postorder = sites at hdescribed
    induction hdescribed with
    | nil => rfl
    | cons hd _ ih => rw [List.map_cons, List.map_cons, ih, hd.name]
  have hpre := map_numbered r root.preorder [] (enumerates_preorder root).sorted
  rw [hnames, ← Registry.bumpAll_nil r]
  exact ((postorder_perm root).map _).trans (.of_eq hpre)

end Setting

namespace Header

open Setting TableName

/-! ## The names in a header -/

/-- The structs of the visible composites of a list of roots. -/
def structNames (roots : List Setting) : List String :=
  roots.flatMap fun root => root.preorder.map Site.structName

/-- The tables of a header have the names handed out for the visible composites of all its
roots. -/
theorem perm_names_of_compileFrom : ∀ (roots : List Setting) {rs : Registries} {h : Header},
    compileFrom rs roots = .ok h →
    (h.tables.map Table.name).Perm (allocations rs.tables (structNames roots))
  | [], rs, h, hc => by
    rw [← Except.ok.inj hc]
    exact .nil
  | root :: roots, rs, h, hc => by
    obtain ⟨structs, inStructs, tables, inTables, rest, -, htables, hrest, rfl⟩ :=
      compileFrom_cons_ok hc
    obtain ⟨-, name, htab⟩ := tables_ok htables
    have ih := perm_names_of_compileFrom roots hrest
    rw [htab.registry] at ih
    rw [structNames, List.flatMap_cons, allocations_append, List.map_append]
    exact (perm_names_of_tables htables).append ih

/-- The identifiers that a header declares for its tables. -/
def identifiers (h : Header) : List String :=
  h.tables.flatMap fun t => t.name.identifiers

/-- Some struct has the name of another with the number of one of its tables, not the first. -/
def Collides (structs : List String) : Prop :=
  ∃ base n, 0 < n ∧ n < structs.count base ∧ numberedBase base n ∈ structs

/-- Which tables of a header are declared once : their names are distinct, and so are the
identifiers exactly if no struct of a visible composite has the name of another with a number
that is in use ; none has if no struct ends in an underscore. -/
structure NamesApart (roots : List Setting) (h : Header) : Prop where
  names : (h.tables.map Table.name).Nodup
  nodup_iff : h.identifiers.Nodup ↔ ¬Collides (structNames roots)
  nodup : (∀ n ∈ structNames roots, n.toList.getLast? ≠ some '_') → h.identifiers.Nodup

/-- The identifiers of a header are distinct exactly if no struct has the name of another with a
number in use. -/
theorem nodup_identifiers_iff {roots : List Setting} {h : Header} (hc : compile roots = .ok h) :
    h.identifiers.Nodup ↔ ¬Collides (structNames roots) := by
  have hperm := perm_names_of_compileFrom roots hc
  have hmem {t : TableName} : t ∈ h.tables.map Table.name ↔
      t.occurrence < (structNames roots).count t.base := by
    rw [hperm.mem_iff, mem_allocations_iff]
    simp [Registries.empty]
  have hnodup := hperm.nodup_iff.mpr (nodup_allocations _ _)
  have hidents : h.identifiers = (h.tables.map Table.name).flatMap TableName.identifiers := by
    rw [List.flatMap_map]
    rfl
  rw [hidents, nodup_flatMap_identifiers_iff hnodup]
  constructor
  · rintro hfree ⟨base, n, hpos, hlt, hstruct⟩
    refine hfree ⟨numberedBase base n, 0⟩ (hmem.mpr ?_) ⟨base, n⟩ (hmem.mpr hlt) ⟨rfl, hpos, rfl⟩
    exact List.count_pos_iff.mpr hstruct
  · rintro hfree ⟨b, k⟩ ht ⟨base, n⟩ hu ⟨hzero, hpos, rfl⟩
    refine hfree ⟨base, n, hpos, hmem.mp hu, ?_⟩
    have hcount := hmem.mp ht
    exact List.count_pos_iff.mp (Nat.zero_lt_of_lt hcount)

theorem getLast?_numberedBase (base : String) (n : Nat) :
    (numberedBase base n).toList.getLast? = some '_' := by
  rw [toList_numberedBase, ← List.cons_append, ← List.append_assoc, List.getLast?_concat]

/-- In every header that compiles, table names are distinct as pairs, and as text unless a struct
takes the name of another's table. -/
theorem namesApart {roots : List Setting} {h : Header} (hc : compile roots = .ok h) :
    NamesApart roots h where
  names := (perm_names_of_compileFrom roots hc).nodup_iff.mpr (nodup_allocations _ _)
  nodup_iff := nodup_identifiers_iff hc
  nodup hends := by
    refine (nodup_identifiers_iff hc).mpr ?_
    rintro ⟨base, n, -, -, hstruct⟩
    exact hends _ hstruct (getLast?_numberedBase base n)

/-- Two panes, and a struct with the name that a third would have. -/
def spared : Setting :=
  .makeGroup "Prefs" .struct [.makeGroup "Pane" .struct [] "",
    .makeGroup "Left" .struct [.makeGroup "Pane" .struct [] ""] "",
    .makeGroup "Pane_2_" .struct [] ""] ""

/-- Two numbers are in use for `Pane`, so the struct `Pane_2_` takes the name of no table. -/
theorem namesApart_spared :
    ∃ h, compile [spared] = .ok h ∧ NamesApart [spared] h ∧
      h.tables.map (fun t => t.name.stem) = ["gPane", "gPane_1_", "gLeft", "gPane_2_", "gPrefs"] :=
  ⟨_, rfl, namesApart rfl, by decide⟩

/-- Two panes, and a struct with the name of the second. -/
def taken : Setting :=
  .makeGroup "Prefs" .struct [.makeGroup "Pane" .struct [] "",
    .makeGroup "Left" .struct [.makeGroup "Pane" .struct [] ""] "",
    .makeGroup "Pane_1_" .struct [] ""] ""

/-- The struct `Pane_1_` takes the name of the second table of `Pane`. -/
theorem not_nodup_identifiers_taken :
    ∃ h, compile [taken] = .ok h ∧ ¬h.identifiers.Nodup :=
  ⟨_, rfl, by decide⟩

end Header

end SettingsCompiler
