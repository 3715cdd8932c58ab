import SettingsCompiler.Header.Struct
import SettingsCompiler.Header.Table
import SettingsCompiler.Proofs.Site
import Mathlib.Data.List.Forall2

/-!
# What the tables say

A run over a composite numbers it on the way in and puts its table behind those inside it
on the way out. `Contributes` takes one step of the run apart, `Tabulates` says what a run
over a composite has done when it ends, and `TabulatesAll` what a run over a list has.

* The registry holds the struct of every visible composite once more.
* The name of a table is settled by what comes before its place in preorder (`numbered`),
  so it can be told without the run, also from the row that refers to it.
* A row refers to the first member of its setting (`slot`), and internal settings take
  the room of their members without a row.

`numbersTables` puts the first two together for a root.
-/

namespace SettingsCompiler.Registry

/-- Registrations one after another. -/
def bumpAll (r : Registry) (names : List String) : Registry :=
  names.foldl bump r

@[simp] theorem bumpAll_nil (r : Registry) : r.bumpAll [] = r := rfl

@[simp] theorem bumpAll_cons (r : Registry) (name : String) (names : List String) :
    r.bumpAll (name :: names) = (r.bump name).bumpAll names := rfl

theorem bumpAll_append (r : Registry) (names more : List String) :
    r.bumpAll (names ++ more) = (r.bumpAll names).bumpAll more :=
  List.foldl_append

/-- Each registration of a name counts once. -/
theorem count_bumpAll (name : String) :
    ∀ (names : List String) (r : Registry),
      (r.bumpAll names).count name = r.count name + names.count name
  | [], r => by simp
  | n :: names, r => by
    rw [bumpAll_cons, count_bumpAll name names, count_bump, List.count_cons]
    by_cases h : n = name
    · simp only [h, if_true, beq_self_eq_true]
      omega
    · simp [h]

end SettingsCompiler.Registry

namespace SettingsCompiler.Setting

open Header

/-! ## Slots -/

/-- The position of the first member of the `i`-th setting of a list among the members of
the struct around them. -/
def slot (cs : List Setting) (i : Nat) : Nat :=
  ((cs.take i).flatMap fun c => membersOf c.info).length

theorem length_membersOf (info : Info) : (membersOf info).length = memberCount info.kind := by
  unfold membersOf memberCount
  cases info.kind <;> rfl

@[simp] theorem slot_zero (cs : List Setting) : slot cs 0 = 0 := by
  simp [slot]

/-- Behind a setting, slots are further on by its members. -/
@[simp] theorem slot_cons_succ (c : Setting) (cs : List Setting) (i : Nat) :
    slot (c :: cs) (i + 1) = memberCount c.info.kind + slot cs i := by
  simp [slot, length_membersOf]

/-! ## One run, taken apart -/

/-- Whether a setting has a row. -/
def isListed (s : Setting) : Bool :=
  s.isComment || !s.info.internal

/-- What the tables of a list gain by one setting `c` of it, whose member stands at `index` :
tables, at most one row, and the registry after it. -/
inductive Contributes (c : Setting) (index : Nat) (r : Registry) :
    List Table → List Row → Registry → Prop
  | comment {l : Literal} : c.isComment = true → c.encode none = .ok l →
      Contributes c index r [] [Row.ofComment l] r
  | internal : c.isComment = false → c.info.internal = true → Contributes c index r [] [] r
  | composite {nested : List Table} {name : TableName} {l : Literal} {r₁ : Registry} :
      c.isComment = false → c.isTabled = true →
      (tabulate c).runFrom r = (.ok (nested, name), r₁) →
      c.encode (some name.infoIdent) = .ok l →
      Contributes c index r nested [Row.ofMember c.info index l] r₁
  | plain {l : Literal} : c.isComment = false → c.info.internal = false →
      c.info.kind.isComposite = false → c.encode none = .ok l →
      Contributes c index r [] [Row.ofMember c.info index l] r

/-- A run over a list is one step for its first setting and a run over the rest, whose member
stands behind those of the first. -/
theorem tabulateAll_cons_ok {index : Nat} {c : Setting} {cs : List Setting} {r r' : Registry}
    {ts : List Table} {rows : List Row}
    (h : (tabulateAll index (c :: cs)).runFrom r = (.ok (ts, rows), r')) :
    ∃ nested row r₁ ts₂ rows₂, Contributes c index r nested row r₁ ∧
      (tabulateAll (index + memberCount c.info.kind) cs).runFrom r₁ = (.ok (ts₂, rows₂), r') ∧
      ts = nested ++ ts₂ ∧ rows = row ++ rows₂ := by
  -- Every branch ends in the tables of the rest, behind what `c` contributes.
  have rest : ∀ {nested row r₁}, Contributes c index r nested row r₁ →
      (tabulateAll (index + memberCount c.info.kind) cs >>= fun p =>
        pure (nested ++ p.1, row ++ p.2)).runFrom r₁ = (.ok (ts, rows), r') →
      ∃ nested row r₁ ts₂ rows₂, Contributes c index r nested row r₁ ∧
        (tabulateAll (index + memberCount c.info.kind) cs).runFrom r₁ = (.ok (ts₂, rows₂), r') ∧
        ts = nested ++ ts₂ ∧ rows = row ++ rows₂ := by
    intro nested row r₁ hc hrest
    obtain ⟨⟨ts₂, rows₂⟩, r₂, hcs, hret⟩ := Registering.runFrom_bind_ok.mp hrest
    simp only [Registering.runFrom_pure, Prod.mk.injEq, Except.ok.injEq] at hret
    obtain ⟨⟨rfl, rfl⟩, rfl⟩ := hret
    exact ⟨nested, row, r₁, ts₂, rows₂, hc, hcs, rfl, rfl⟩
  rw [tabulateAll] at h
  split at h
  · next hcom =>
    obtain ⟨l, r₁, hl, hrest⟩ := Registering.runFrom_bind_ok.mp h
    rw [Registering.runFrom_ofExcept, Prod.mk.injEq] at hl
    obtain ⟨hl, rfl⟩ := hl
    exact rest (.comment hcom hl) hrest
  · next hcom =>
    rw [Bool.not_eq_true] at hcom
    split at h
    · next hint => exact rest (.internal hcom hint) h
    · next hint =>
      rw [Bool.not_eq_true] at hint
      split at h
      · next hcomp =>
        obtain ⟨⟨nested, name⟩, r₁, htab, hrest⟩ := Registering.runFrom_bind_ok.mp h
        obtain ⟨l, r₂, hl, hrest⟩ := Registering.runFrom_bind_ok.mp hrest
        rw [Registering.runFrom_ofExcept, Prod.mk.injEq] at hl
        obtain ⟨hl, rfl⟩ := hl
        exact rest (.composite hcom (by simp [isTabled, hint, hcomp]) htab hl) hrest
      · next hcomp =>
        rw [Bool.not_eq_true] at hcomp
        obtain ⟨l, r₁, hl, hrest⟩ := Registering.runFrom_bind_ok.mp h
        rw [Registering.runFrom_ofExcept, Prod.mk.injEq] at hl
        obtain ⟨hl, rfl⟩ := hl
        exact rest (.plain hcom hint hcomp hl) hrest

/-- A run over a composite takes its name first, then goes through the list, and puts the table
of the composite last. -/
theorem tabulate_group_ok {info : Info} {cs : List Setting} {r r' : Registry} {ts : List Table}
    {name : TableName}
    (h : (tabulate (group info cs)).runFrom r = (.ok (ts, name), r')) :
    ∃ tables rows,
      (tabulateAll 0 cs).runFrom (r.bump info.structName) = (.ok (tables, rows), r') ∧
      name = ⟨info.structName, r.count info.structName⟩ ∧
      ts = tables ++ [⟨name, info.structName, rows⟩] := by
  simp only [tabulate, TableName.allocate, Registering.runFrom_bind_ok,
    Registering.runFrom_register, Registering.runFrom_ofExcept, Registering.runFrom_pure,
    Prod.mk.injEq, Except.ok.injEq] at h
  obtain ⟨_, _, ⟨_, _, ⟨rfl, rfl⟩, rfl, rfl⟩, _, _, ⟨-, rfl⟩, ⟨tables, rows⟩, _, hall,
    ⟨rfl, rfl⟩, rfl⟩ := h
  exact ⟨tables, rows, hall, rfl, rfl⟩

theorem tabulate_leaf_ne_ok {info : Info} {value : Value} {r r' : Registry} {ts : List Table}
    {name : TableName} : (tabulate (leaf info value)).runFrom r ≠ (.ok (ts, name), r') := by
  simp [tabulate, Registering.runFrom_bind_ok]

/-! ## Numbering -/

/-- How many of the sites are of a struct and come before a place. -/
def countBefore (sites : List Site) (path : List Nat) (structName : String) : Nat :=
  sites.countP fun y => decide (y.path < path) && y.structName == structName

/-- The name of the table at a place : the sites of its struct before it in `sites` are
counted on from the registry. -/
def numbered (r : Registry) (sites : List Site) (path : List Nat) (structName : String) :
    TableName :=
  ⟨structName, r.count structName + countBefore sites path structName⟩

theorem countBefore_append (l l' : List Site) (path : List Nat) (n : String) :
    countBefore (l ++ l') path n = countBefore l path n + countBefore l' path n :=
  List.countP_append

/-- Places inside a tree are counted alike wherever the tree stands. -/
theorem countBefore_map_under (l : List Site) (i : Nat) (path : List Nat) (n : String) :
    countBefore (l.map (Site.under i)) (i :: path) n = countBefore l path n := by
  rw [countBefore, countBefore, List.countP_map]
  congr 1
  funext y
  simp [Site.under, Site.structName]

/-- Nothing is counted where no site comes before the place. -/
theorem countBefore_eq_zero {l : List Site} {path : List Nat} (n : String)
    (h : ∀ y ∈ l, ¬y.path < path) : countBefore l path n = 0 :=
  List.countP_eq_zero.mpr fun y hy => by simp [h y hy]

/-- Where all sites come before the place, those of the struct are counted. -/
theorem countBefore_eq_count {l : List Site} {path : List Nat} (n : String)
    (h : ∀ y ∈ l, y.path < path) : countBefore l path n = (l.map Site.structName).count n := by
  rw [countBefore, List.count, List.countP_map]
  exact List.countP_congr fun y hy => by simp [h y hy]

/-- The sites of a list of trees, in preorder. -/
abbrev preorderFrom (i : Nat) (cs : List Setting) : List Site :=
  sitesFrom (fun site inside => site :: inside) i cs

/-- The sites of a list of trees, in postorder. -/
abbrev postorderFrom (i : Nat) (cs : List Setting) : List Site :=
  sitesFrom (fun site inside => inside ++ [site]) i cs

theorem preorder_eq (s : Setting) : s.preorder = ⟨[], s⟩ :: preorderFrom 0 s.children :=
  sites_eq s

theorem postorder_eq (s : Setting) : s.postorder = postorderFrom 0 s.children ++ [⟨[], s⟩] :=
  sites_eq s

theorem preorderFrom_cons (i : Nat) (c : Setting) (cs : List Setting) :
    preorderFrom i (c :: cs) =
      (if c.isTabled then c.preorder.map (Site.under i) else []) ++ preorderFrom (i + 1) cs :=
  rfl

theorem postorderFrom_cons (i : Nat) (c : Setting) (cs : List Setting) :
    postorderFrom i (c :: cs) =
      (if c.isTabled then c.postorder.map (Site.under i) else []) ++ postorderFrom (i + 1) cs :=
  rfl

/-- Behind the root, names go on from a registry that holds the root. -/
theorem numbered_preorder_cons (r : Registry) (s : Setting) (i : Nat) (path : List Nat)
    (n : String) : numbered r s.preorder (i :: path) n =
      numbered (r.bump s.info.structName) (preorderFrom 0 s.children) (i :: path) n := by
  have hlt : ([] : List Nat) < i :: path := List.nil_lt_cons i path
  rw [numbered, numbered, preorder_eq, countBefore, List.countP_cons, Registry.count_bump]
  simp only [hlt, Site.structName, decide_true, Bool.true_and, beq_iff_eq, countBefore,
    TableName.mk.injEq, true_and]
  omega

/-- Inside the first tree of a list, names depend on that tree alone. -/
theorem numbered_preorderFrom_first (r : Registry) {c : Setting} (ht : c.isTabled = true)
    (cs : List Setting) (i : Nat) (path : List Nat) (n : String) :
    numbered r (preorderFrom i (c :: cs)) (i :: path) n = numbered r c.preorder path n := by
  have hrest : countBefore (preorderFrom (i + 1) cs) (i :: path) n = 0 := by
    refine countBefore_eq_zero n fun y hy => ?_
    obtain ⟨j, q, hij, hq⟩ := exists_path_of_mem_sitesFrom keeps_cons hy
    rw [hq, List.cons_lt_cons_iff]
    omega
  rw [numbered, numbered, preorderFrom_cons, countBefore_append, hrest, if_pos ht,
    countBefore_map_under, Nat.add_zero]

/-- Behind the first tree of a list, names go on from a registry that holds its sites. -/
theorem numbered_preorderFrom_rest (r : Registry) (c : Setting) (cs : List Setting) {i j : Nat}
    (hij : i < j) (path : List Nat) (n : String) :
    numbered r (preorderFrom i (c :: cs)) (j :: path) n =
      numbered (if c.isTabled then r.bumpAll (c.preorder.map Site.structName) else r)
        (preorderFrom (i + 1) cs) (j :: path) n := by
  rw [numbered, numbered, preorderFrom_cons, countBefore_append]
  split
  · rw [countBefore_eq_count, Registry.count_bumpAll, List.map_map]
    · rw [Nat.add_assoc]
      rfl
    · intro y hy
      obtain ⟨z, -, rfl⟩ := List.mem_map.mp hy
      exact List.cons_lt_cons_iff.mpr (Or.inl hij)
  · simp [countBefore]

/-! ## What tables say -/

/-- The settings of a list that have a row, each with its position ; the first setting of
the list stands at `i`. -/
def listed (i : Nat) (cs : List Setting) : List (Setting × Nat) :=
  (cs.zipIdx i).filter fun e => e.1.isListed

theorem listed_cons (i : Nat) (c : Setting) (cs : List Setting) :
    listed i (c :: cs) = (if c.isListed then [(c, i)] else []) ++ listed (i + 1) cs := by
  rw [listed, List.zipIdx_cons, List.filter_cons]
  split <;> rfl

/-- The row of a setting whose first member stands at `slot` and whose table, if it has one,
has the given name. -/
structure Shows (slot : Nat) (table : TableName) (c : Setting) (row : Row) : Prop where
  offset : row.offset = if c.isComment then .noStorage else .member c.info.ident slot
  kind : row.kind = c.info.kind
  name : row.name = if c.isComment then "" else c.info.name
  default : c.encode (some table.infoIdent) = .ok row.default

/-- The table of a site, with the names that `names` gives to the structs at places. -/
structure Describes (names : List Nat → String → TableName) (site : Site) (t : Table) :
    Prop where
  name : t.name = names site.path site.structName
  structName : t.structName = site.structName
  rows : List.Forall₂ (fun e row => Shows (slot site.setting.children e.2)
    (names (site.path ++ [e.2]) e.1.info.structName) e.1 row)
    (listed 0 site.setting.children) t.rows

theorem Describes.under {names : List Nat → String → TableName} {site : Site} {t : Table}
    {i : Nat} (h : Describes (fun path => names (i :: path)) site t) :
    Describes names (site.under i) t :=
  ⟨h.name, h.structName, h.rows⟩

theorem isComposite_of_isComment {c : Setting} (h : c.isComment = true) :
    c.info.kind.isComposite = false := by
  rw [beq_iff_eq.mp h]
  rfl

/-- Only the literal of a composite depends on a table. -/
theorem encode_eq_of_not_isComposite {c : Setting} (h : c.info.kind.isComposite = false)
    (t t' : Option String) : c.encode t = c.encode t' := by
  cases c <;> simp_all [encode, info]

theorem not_isComment_of_isTabled {c : Setting} (h : c.isTabled = true) :
    c.isComment = false := by
  rw [isTabled, Bool.and_eq_true] at h
  by_contra hcom
  rw [isComposite_of_isComment (by simpa using hcom)] at h
  simp at h

/-- The literal of a visible composite refers to its table. -/
theorem encode_of_isTabled {c : Setting} {ident : String} {l : Literal}
    (h : c.isTabled = true) (hl : c.encode (some ident) = .ok l) : l = .tableRef ident := by
  have hcom := not_isComment_of_isTabled h
  rw [isTabled, Bool.and_eq_true] at h
  rw [encode.eq_def, hcom, if_neg (by simp), if_pos h.2] at hl
  split at hl
  · cases hl
  · next he =>
    cases he
    exact (Except.ok.inj hl).symm
  · next he => cases he

theorem Shows.of_comment {c : Setting} {l : Literal} (hcom : c.isComment = true)
    (hl : c.encode none = .ok l) (slot : Nat) (table : TableName) :
    Shows slot table c (Row.ofComment l) where
  offset := by simp [Row.ofComment, hcom]
  kind := (beq_iff_eq.mp hcom).symm
  name := by simp [Row.ofComment, hcom]
  default := by rw [encode_eq_of_not_isComposite (isComposite_of_isComment hcom) _ none, hl]; rfl

/-- The row that is made of a member shows it at its slot. -/
theorem Shows.of_member {c : Setting} {l : Literal} {table : TableName}
    (hcom : c.isComment = false) (hl : c.encode (some table.infoIdent) = .ok l) (slot : Nat) :
    Shows slot table c (Row.ofMember c.info slot l) where
  offset := by simp [Row.ofMember, hcom]
  kind := rfl
  name := by simp [Row.ofMember, hcom]
  default := hl

/-- A run over a composite `s` registers the struct of every visible place once more. With
names that go on from the registry, it names `s` and describes the sites in postorder. -/
structure Tabulates (s : Setting) (r r' : Registry) (ts : List Table) (name : TableName) :
    Prop where
  registry : r' = r.bumpAll (s.preorder.map Site.structName)
  describes : ∀ names : List Nat → String → TableName,
    (∀ path n, names path n = numbered r s.preorder path n) →
    name = names [] s.info.structName ∧ List.Forall₂ (Describes names) s.postorder ts

/-- The same for the trees of a list, the first at position `i`, with the rows of their
roots in a struct whose next member stands at `index`. -/
structure TabulatesAll (i index : Nat) (cs : List Setting) (r r' : Registry) (ts : List Table)
    (rows : List Row) : Prop where
  registry : r' = r.bumpAll ((preorderFrom i cs).map Site.structName)
  describes : ∀ (names : List Nat → String → TableName) (slotAt : Nat → Nat),
    (∀ j path n, i ≤ j → names (j :: path) n = numbered r (preorderFrom i cs) (j :: path) n) →
    (∀ j, slotAt (i + j) = index + slot cs j) →
    List.Forall₂ (Describes names) (postorderFrom i cs) ts ∧
    List.Forall₂ (fun e row => Shows (slotAt e.2) (names [e.2] e.1.info.structName) e.1 row)
      (listed i cs) rows

/-- The registry after one setting of a list. -/
theorem Contributes.registry {c : Setting} {index : Nat} {r r₁ : Registry} {nested : List Table}
    {row : List Row} (h : Contributes c index r nested row r₁)
    (hc : ∀ {ts name}, (tabulate c).runFrom r = (.ok (ts, name), r₁) →
      Tabulates c r r₁ ts name) :
    r₁ = if c.isTabled then r.bumpAll (c.preorder.map Site.structName) else r := by
  cases h with
  | comment hcom => simp [isTabled, isComposite_of_isComment hcom]
  | internal _ hint => simp [isTabled, hint]
  | composite _ ht htab => rw [if_pos ht, (hc htab).registry]
  | plain _ _ hcomp => simp [isTabled, hcomp]

/-- The tables and the row that one setting of a list contributes. -/
theorem Contributes.describes {c : Setting} {i index : Nat} {r r₁ : Registry}
    {nested : List Table} {row : List Row} (h : Contributes c index r nested row r₁)
    (hc : ∀ {ts name}, (tabulate c).runFrom r = (.ok (ts, name), r₁) →
      Tabulates c r r₁ ts name)
    {names : List Nat → String → TableName} {slotAt : Nat → Nat}
    (hnames : c.isTabled = true → ∀ path n, names (i :: path) n = numbered r c.preorder path n)
    (hslot : slotAt i = index) :
    List.Forall₂ (Describes names)
      (if c.isTabled then c.postorder.map (Site.under i) else []) nested ∧
    List.Forall₂ (fun e row => Shows (slotAt e.2) (names [e.2] e.1.info.structName) e.1 row)
      (if c.isListed then [(c, i)] else []) row := by
  subst hslot
  cases h with
  | comment hcom hl =>
    have ht : c.isTabled = false := by simp [isTabled, isComposite_of_isComment hcom]
    simpa [ht, isListed, hcom] using Shows.of_comment hcom hl _ _
  | internal hcom hint => simp [isTabled, isListed, hcom, hint]
  | @composite _ name l _ hcom ht htab hl =>
    obtain ⟨hname, hts⟩ := (hc htab).describes (fun path => names (i :: path)) (hnames ht)
    have hlist : c.isListed = true := by
      rw [isTabled, Bool.and_eq_true] at ht
      simp [isListed, ht.1]
    rw [if_pos ht, if_pos hlist, List.forall₂_map_left_iff]
    refine ⟨hts.imp fun _ _ => Describes.under, .cons ?_ .nil⟩
    rw [hname] at hl
    exact .of_member hcom hl _
  | plain hcom hint hcomp hl =>
    have ht : c.isTabled = false := by simp [isTabled, hcomp]
    have hl' := (encode_eq_of_not_isComposite hcomp (some (names [i] c.info.structName).infoIdent)
      none).trans hl
    simpa [ht, isListed, hcom, hint] using Shows.of_member hcom hl' _

mutual

/-- What a run over a composite has done when it succeeds. The induction follows the run, and the
registry in hand says which names come next. -/
theorem tabulates : ∀ (s : Setting) {r r' : Registry} {ts : List Table} {name : TableName},
    (tabulate s).runFrom r = (.ok (ts, name), r') → Tabulates s r r' ts name
  | leaf info value, _, _, _, _, h => absurd h tabulate_leaf_ne_ok
  | group info cs, r, r', ts, name, h => by
    obtain ⟨tables, rows, hall, rfl, rfl⟩ := tabulate_group_ok h
    have hcs := tabulatesAll cs (i := 0) hall
    refine ⟨?_, fun names hnames => ?_⟩
    · rw [hcs.registry, preorder_eq]
      rfl
    · have hname : (⟨info.structName, r.count info.structName⟩ : TableName) =
          names [] info.structName := by
        rw [hnames, numbered, countBefore_eq_zero _ fun y _ => List.not_lt_nil y.path]
        rfl
      obtain ⟨hts, hrows⟩ := hcs.describes names (slot cs)
        (fun j path n _ => by rw [hnames, numbered_preorder_cons]; rfl) (fun j => by simp)
      refine ⟨hname, ?_⟩
      rw [postorder_eq]
      exact List.rel_append hts (.cons ⟨hname, rfl, hrows⟩ .nil)

/-- What a run over a list has done when it succeeds. -/
theorem tabulatesAll : ∀ (cs : List Setting) {i index : Nat} {r r' : Registry}
    {ts : List Table} {rows : List Row},
    (tabulateAll index cs).runFrom r = (.ok (ts, rows), r') →
    TabulatesAll i index cs r r' ts rows
  | [], i, index, r, r', ts, rows, h => by
    simp only [tabulateAll, Registering.runFrom_pure, Prod.mk.injEq, Except.ok.injEq] at h
    obtain ⟨⟨rfl, rfl⟩, rfl⟩ := h
    exact ⟨rfl, fun _ _ _ _ => ⟨.nil, .nil⟩⟩
  | c :: cs, i, index, r, r', ts, rows, h => by
    obtain ⟨nested, row, r₁, ts₂, rows₂, hc, hrest, rfl, rfl⟩ := tabulateAll_cons_ok h
    have hr₁ := hc.registry (tabulates c)
    have hcs := tabulatesAll cs (i := i + 1) hrest
    refine ⟨?_, fun names slotAt hnames hslot => ?_⟩
    · rw [hcs.registry, hr₁, preorderFrom_cons, List.map_append, Registry.bumpAll_append]
      split
      · rw [List.map_map]
        rfl
      · rfl
    · obtain ⟨hts, hrow⟩ := hc.describes (tabulates c)
        (fun ht path n => (hnames i path n (Nat.le_refl i)).trans
          (numbered_preorderFrom_first r ht cs i path n))
        (by simpa using hslot 0)
      obtain ⟨hts₂, hrows₂⟩ := hcs.describes names slotAt
        (fun j path n hij => by
          rw [hnames j path n (by omega), numbered_preorderFrom_rest r c cs hij, ← hr₁])
        (fun j => by
          have := hslot (j + 1)
          rw [slot_cons_succ] at this
          rw [show i + 1 + j = i + (j + 1) by omega, this]
          omega)
      rw [postorderFrom_cons, listed_cons]
      exact ⟨List.rel_append hts hts₂, List.rel_append hrow hrows₂⟩

end

/-! ## The tables of a root -/

/-- The tables of a root are those of a run over it, and the root is a struct. -/
theorem tables_ok {root : Setting} {r r' : Registry} {ts : List Table}
    (h : root.tables.runFrom r = (.ok ts, r')) :
    root.info.kind = .struct ∧ ∃ name, Tabulates root r r' ts name := by
  rw [tables] at h
  split at h
  · next hkind =>
    obtain ⟨⟨ts', name⟩, r₁, htab, hret⟩ := Registering.runFrom_bind_ok.mp h
    simp only [Registering.runFrom_pure, Prod.mk.injEq, Except.ok.injEq] at hret
    obtain ⟨rfl, rfl⟩ := hret
    exact ⟨hkind, name, tabulates root htab⟩
  · simp at h

/-- The tables of a root describe its visible composites, with names numbered from the start. -/
theorem describes_of_tables {root : Setting} {r r' : Registry} {ts : List Table}
    (h : root.tables.runFrom r = (.ok ts, r')) :
    List.Forall₂ (Describes (numbered r root.preorder)) root.postorder ts := by
  obtain ⟨-, name, htab⟩ := tables_ok h
  exact (htab.describes (numbered r root.preorder) fun _ _ => rfl).2

/-- The tables `ts` of a root, made from the registry `r` with `r'` left behind : one for
every visible composite, in postorder, each numbered by the registry and the visible
composites of its struct before it in preorder, and referred to by that name from the row
of the composite in the table around it. -/
structure NumbersTables (root : Setting) (r r' : Registry) (ts : List Table) : Prop where
  postorder : Enumerates root PostBefore root.postorder
  preorder : Enumerates root (· < ·) root.preorder
  tables : List.Forall₂ (fun site t => t.structName = site.structName ∧
      t.name = numbered r root.preorder site.path site.structName ∧
      List.Forall₂ (fun e row => e.1.isTabled = true →
          row.kind = e.1.info.kind ∧ row.name = e.1.info.name ∧
          row.default = .tableRef (numbered r root.preorder (site.path ++ [e.2])
            e.1.info.structName).infoIdent)
        (listed 0 site.setting.children) t.rows)
    root.postorder ts
  counts : ∀ n, r'.count n = r.count n + root.preorder.countP fun site => site.structName == n

/-- The tables of a root are numbered in preorder and stand in postorder, from any registry ;
each composite in a row refers to the table of its own place. -/
theorem numbersTables {root : Setting} {r r' : Registry} {ts : List Table}
    (h : root.tables.runFrom r = (.ok ts, r')) : NumbersTables root r r' ts where
  postorder := enumerates_postorder root
  preorder := enumerates_preorder root
  tables := by
    obtain ⟨-, name, htab⟩ := tables_ok h
    obtain ⟨-, hts⟩ := htab.describes (numbered r root.preorder) fun _ _ => rfl
    refine hts.imp fun site t hd => ⟨hd.structName, hd.name, hd.rows.imp fun e row hs ht => ?_⟩
    have hname := hs.name
    rw [not_isComment_of_isTabled ht, if_neg (by simp)] at hname
    exact ⟨hs.kind, hname, encode_of_isTabled ht hs.default⟩
  counts n := by
    obtain ⟨-, name, htab⟩ := tables_ok h
    rw [htab.registry, Registry.count_bumpAll, List.count, List.countP_map]
    rfl

/-- A struct inside itself, and once more beside that. -/
def panes : Setting :=
  .makeGroup "Pane" .struct [.makeGroup "Pane" .compact [.make "Size" .int (.int 1) ""] "",
    .makeGroup "Panes" .array [] ""] ""

/-- The tables of `panes` where one table for the struct exists. -/
def paneTables : List Table :=
  [⟨⟨"Pane", 2⟩, "Pane", [⟨.member "size" 0, .int, .int 1, "Size"⟩]⟩,
    ⟨⟨"Pane", 3⟩, "Pane", []⟩,
    ⟨⟨"Pane", 1⟩, "Pane", [⟨.member "pane" 0, .compact, .tableRef "gPane_2_Info", "Pane"⟩,
      ⟨.member "panes" 1, .array, .tableRef "gPane_3_Info", "Panes"⟩]⟩]

/-- A struct inside itself and beside itself, where one table for it exists already : the numbers
go on from there, and no two are the same. -/
theorem numbersTables_panes :
    panes.tables.runFrom ⟨["Pane"]⟩ = (.ok paneTables, ⟨["Pane", "Pane", "Pane", "Pane"]⟩) ∧
      NumbersTables panes ⟨["Pane"]⟩ ⟨["Pane", "Pane", "Pane", "Pane"]⟩ paneTables :=
  ⟨rfl, numbersTables rfl⟩

end SettingsCompiler.Setting
