import SettingsCompiler.Setting.Basic
import Mathlib.Data.List.Basic

/-!
# Visible composites

A place in a tree of settings is the list of positions to go through from the root. A
composite is visible at its place if no setting on the way to it, itself included, is
internal (`Visible`). The same composite can stand at many places, so what is said of
occurrences is said of places (`Site`).

`preorder` lists the visible composites of a tree with each in front of those inside it,
`postorder` with each behind them. Both hold exactly the visible composites :
`preorder` by increasing paths (`enumerates_preorder`), `postorder` in the order
`PostBefore` (`enumerates_postorder`).
-/

namespace SettingsCompiler.Setting

/-- The settings under a setting ; a leaf has none. -/
def children : Setting → List Setting
  | leaf _ _ => []
  | group _ children => children

/-- Whether a setting under a visible composite is a visible composite itself. -/
def isTabled (s : Setting) : Bool :=
  !s.info.internal && s.info.kind.isComposite

/-- `x` is a visible composite of the tree of `root`, at the given path. -/
inductive Visible (root : Setting) : List Nat → Setting → Prop
  | root : Visible root [] root
  | child {path : List Nat} {x c : Setting} {i : Nat} : Visible root path x →
      x.children[i]? = some c → c.isTabled = true → Visible root (path ++ [i]) c

/-- The empty path leads to the root and nowhere else. -/
theorem visible_nil_iff {root x : Setting} : Visible root [] x ↔ x = root := by
  constructor
  · intro h
    generalize hp : ([] : List Nat) = path at h
    cases h with
    | root => rfl
    | child => simp at hp
  · rintro rfl
    exact .root

/-- The first step of a path leads to a visible composite among the children. -/
theorem visible_cons_iff {root x : Setting} {i : Nat} {path : List Nat} :
    Visible root (i :: path) x ↔
      ∃ c, root.children[i]? = some c ∧ c.isTabled = true ∧ Visible c path x := by
  constructor
  · intro h
    generalize hp : i :: path = whole at h
    induction h generalizing path with
    | root => cases hp
    | @child before y c j hy hc ht ih =>
      cases before with
      | nil =>
        obtain ⟨rfl, rfl⟩ := List.cons.inj hp
        rw [visible_nil_iff.mp hy] at hc
        exact ⟨c, hc, ht, .root⟩
      | cons k before =>
        obtain ⟨rfl, rfl⟩ := List.cons.inj hp
        obtain ⟨d, hd, htd, hvis⟩ := ih rfl
        exact ⟨d, hd, htd, hvis.child hc ht⟩
  · rintro ⟨c, hc, ht, hvis⟩
    induction hvis with
    | root =>
      have h : Visible root ([] ++ [i]) c := Visible.root.child hc ht
      exact h
    | child _ hd htd ih => exact ih.child hd htd

/-! ## Listing the visible composites -/

/-- A setting at a place. -/
structure Site where
  path : List Nat
  setting : Setting

namespace Site

/-- The site in the tree around, where its own tree stands at a position. -/
def under (i : Nat) (site : Site) : Site :=
  ⟨i :: site.path, site.setting⟩

/-- The struct of the setting at a site. -/
def structName (site : Site) : String :=
  site.setting.info.structName

end Site

mutual

/-- The visible composites of a tree, the root put by `place` to those inside it. -/
def sites (place : Site → List Site → List Site) : Setting → List Site
  | leaf info value => place ⟨[], leaf info value⟩ []
  | group info children => place ⟨[], group info children⟩ (sitesFrom place 0 children)

/-- The visible composites of the trees in a list, the first of them at position `i`. -/
def sitesFrom (place : Site → List Site → List Site) (i : Nat) : List Setting → List Site
  | [] => []
  | c :: cs =>
    (if c.isTabled then (sites place c).map (Site.under i) else []) ++ sitesFrom place (i + 1) cs

end

/-- The visible composites, each in front of those inside it. -/
def preorder : Setting → List Site :=
  sites fun site inside => site :: inside

/-- The visible composites, each behind those inside it. -/
def postorder : Setting → List Site :=
  sites fun site inside => inside ++ [site]

/-- `place` keeps the root and what is inside it and adds nothing. -/
def Keeps (place : Site → List Site → List Site) : Prop :=
  ∀ site inside y, y ∈ place site inside ↔ y = site ∨ y ∈ inside

/-- `place` puts a root to what is inside it in line with `before`, an order of places that
goes from left to right and does not depend on where a tree stands. -/
structure Arranges (place : Site → List Site → List Site)
    (before : List Nat → List Nat → Prop) : Prop where
  keeps : Keeps place
  left : ∀ {i j p q}, i < j → before (i :: p) (j :: q)
  under : ∀ {i p q}, before p q → before (i :: p) (i :: q)
  root : ∀ {s inside}, inside.Pairwise (fun a b => before a.path b.path) →
    (∀ y ∈ inside, ∃ i q, y.path = i :: q) →
    (place ⟨[], s⟩ inside).Pairwise fun a b => before a.path b.path

section

variable {place : Site → List Site → List Site}

theorem sites_eq (s : Setting) :
    sites place s = place ⟨[], s⟩ (sitesFrom place 0 s.children) := by
  cases s with
  | leaf info value => simp [sites, sitesFrom, children]
  | group info cs => simp [sites, children]

mutual

/-- The sites of a tree are its visible composites, wherever `place` puts the root. -/
theorem mem_sites_iff (hk : Keeps place) :
    ∀ (s : Setting) {path : List Nat} {x : Setting},
      ⟨path, x⟩ ∈ sites place s ↔ Visible s path x
  | leaf info value, path, x => by
    rw [sites_eq, hk]
    cases path with
    | nil => simp [visible_nil_iff, children, sitesFrom]
    | cons i path => simp [visible_cons_iff, children, sitesFrom]
  | group info cs, path, x => by
    rw [sites_eq, hk, children, mem_sitesFrom_iff hk cs]
    cases path with
    | nil => simp [visible_nil_iff]
    | cons i path =>
      rw [visible_cons_iff]
      constructor
      · rintro (h | ⟨j, c, q, hc, ht, hp, hvis⟩)
        · cases h
        · obtain ⟨rfl, rfl⟩ := List.cons.inj hp
          exact ⟨c, by simpa [children] using hc, ht, hvis⟩
      · rintro ⟨c, hc, ht, hvis⟩
        exact Or.inr ⟨i, c, path, hc, ht, by simp, hvis⟩

/-- The sites of a list of trees, each with the position of its tree in front of its path. -/
theorem mem_sitesFrom_iff (hk : Keeps place) :
    ∀ (cs : List Setting) {i : Nat} {path : List Nat} {x : Setting},
      ⟨path, x⟩ ∈ sitesFrom place i cs ↔ ∃ j c q, cs[j]? = some c ∧ c.isTabled = true ∧
        path = (i + j) :: q ∧ Visible c q x
  | [], i, path, x => by simp [sitesFrom]
  | c :: cs, i, path, x => by
    have hfirst : ⟨path, x⟩ ∈ (if c.isTabled then (sites place c).map (Site.under i) else []) ↔
        c.isTabled = true ∧ ∃ q, path = i :: q ∧ Visible c q x := by
      by_cases ht : c.isTabled = true
      · simp only [ht, if_true, List.mem_map, true_and]
        constructor
        · rintro ⟨⟨q, y⟩, hy, he⟩
          simp only [Site.under, Site.mk.injEq] at he
          obtain ⟨rfl, rfl⟩ := he
          exact ⟨q, rfl, (mem_sites_iff hk c).mp hy⟩
        · rintro ⟨q, rfl, hvis⟩
          exact ⟨⟨q, x⟩, (mem_sites_iff hk c).mpr hvis, rfl⟩
      · simp [ht]
    rw [sitesFrom, List.mem_append, hfirst, mem_sitesFrom_iff hk cs]
    constructor
    · rintro (⟨ht, q, hp, hvis⟩ | ⟨j, d, q, hd, ht, hp, hvis⟩)
      · exact ⟨0, c, q, by simp, ht, by simpa using hp, hvis⟩
      · exact ⟨j + 1, d, q, by simpa using hd, ht, by rw [hp]; congr 1; omega, hvis⟩
    · rintro ⟨j, d, q, hd, ht, hp, hvis⟩
      cases j with
      | zero =>
        obtain rfl : c = d := by simpa using hd
        exact Or.inl ⟨ht, q, by simpa using hp, hvis⟩
      | succ j =>
        exact Or.inr ⟨j, d, q, by simpa using hd, ht, by rw [hp]; congr 1; omega, hvis⟩

end

/-- The path of a site of a list starts with a position from `i` on. -/
theorem exists_path_of_mem_sitesFrom (hk : Keeps place) {cs : List Setting} {i : Nat} {y : Site}
    (hy : y ∈ sitesFrom place i cs) : ∃ j q, i ≤ j ∧ y.path = j :: q := by
  obtain ⟨j, -, q, -, -, hp, -⟩ := (mem_sitesFrom_iff hk cs (x := y.setting)).mp hy
  exact ⟨i + j, q, Nat.le_add_right i j, hp⟩

variable {before : List Nat → List Nat → Prop}

mutual

/-- The sites of a tree stand in the order that `place` keeps to. -/
theorem pairwise_sites (ha : Arranges place before) :
    ∀ s : Setting, (sites place s).Pairwise fun a b => before a.path b.path
  | leaf info value => by
    rw [sites_eq]
    exact ha.root (by simp [children, sitesFrom]) (by simp [children, sitesFrom])
  | group info cs => by
    rw [sites_eq]
    refine ha.root (pairwise_sitesFrom ha cs 0) fun y hy => ?_
    obtain ⟨j, q, -, hp⟩ := exists_path_of_mem_sitesFrom ha.keeps hy
    exact ⟨j, q, hp⟩

theorem pairwise_sitesFrom (ha : Arranges place before) :
    ∀ (cs : List Setting) (i : Nat),
      (sitesFrom place i cs).Pairwise fun a b => before a.path b.path
  | [], i => by simp [sitesFrom]
  | c :: cs, i => by
    rw [sitesFrom, List.pairwise_append]
    refine ⟨?_, pairwise_sitesFrom ha cs (i + 1), fun a hfirst b hrest => ?_⟩
    · split
      · rw [List.pairwise_map]
        exact (pairwise_sites ha c).imp ha.under
      · exact List.Pairwise.nil
    · obtain ⟨j, q, hij, hq⟩ := exists_path_of_mem_sitesFrom ha.keeps hrest
      split at hfirst
      · obtain ⟨a', -, rfl⟩ := List.mem_map.mp hfirst
        rw [hq]
        exact ha.left hij
      · simp at hfirst

end

end

/-! ## The two orders -/

theorem keeps_cons : Keeps fun site inside => site :: inside := fun _ _ _ => List.mem_cons

theorem keeps_concat : Keeps fun site inside => inside ++ [site] := by
  intro site inside y
  rw [List.mem_append, List.mem_singleton, or_comm]

/-- The preorder lists the visible composites and nothing else. -/
theorem mem_preorder_iff {s x : Setting} {path : List Nat} :
    ⟨path, x⟩ ∈ s.preorder ↔ Visible s path x :=
  mem_sites_iff keeps_cons s

/-- The postorder lists the visible composites and nothing else, too. -/
theorem mem_postorder_iff {s x : Setting} {path : List Nat} :
    ⟨path, x⟩ ∈ s.postorder ↔ Visible s path x :=
  mem_sites_iff keeps_concat s

/-- The first place comes in front of what it is inside of and of what is right of it. -/
inductive PostBefore : List Nat → List Nat → Prop
  | inside {i : Nat} {p : List Nat} : PostBefore (i :: p) []
  | left {i j : Nat} {p q : List Nat} : i < j → PostBefore (i :: p) (j :: q)
  | under {i : Nat} {p q : List Nat} : PostBefore p q → PostBefore (i :: p) (i :: q)

/-- No place comes in front of itself. -/
theorem PostBefore.irrefl : ∀ p : List Nat, ¬PostBefore p p
  | [], h => nomatch h
  | i :: p, h => by
    cases h with
    | left hij => exact Nat.lt_irrefl i hij
    | under h => exact irrefl p h

/-- `l` holds the visible composites of a tree and nothing else, each once and in the order
`before`. -/
structure Enumerates (root : Setting) (before : List Nat → List Nat → Prop)
    (l : List Site) : Prop where
  sorted : l.Pairwise fun a b => before a.path b.path
  nodup : (l.map Site.path).Nodup
  mem_iff : ∀ path x, ⟨path, x⟩ ∈ l ↔ Visible root path x

/-- A list that holds the visible composites in an irreflexive order holds each of them once. -/
theorem Enumerates.of_sorted {root : Setting} {before : List Nat → List Nat → Prop}
    {l : List Site} (hirrefl : ∀ p, ¬before p p)
    (hsorted : l.Pairwise fun a b => before a.path b.path)
    (hmem : ∀ path x, ⟨path, x⟩ ∈ l ↔ Visible root path x) : Enumerates root before l := by
  refine ⟨hsorted, ?_, hmem⟩
  rw [List.Nodup, List.pairwise_map]
  refine hsorted.imp fun {a b} hab => ?_
  intro he
  rw [← he] at hab
  exact hirrefl a.path hab

/-- In preorder the visible composites stand by increasing paths. -/
theorem enumerates_preorder (s : Setting) : Enumerates s (· < ·) s.preorder := by
  refine .of_sorted (fun p => List.lt_irrefl p) ?_ fun _ _ => mem_preorder_iff
  refine pairwise_sites ⟨keeps_cons, fun hij => List.cons_lt_cons_iff.mpr (Or.inl hij),
    fun hpq => List.cons_lt_cons_iff.mpr (Or.inr ⟨rfl, hpq⟩), fun hin hpath => ?_⟩ s
  refine List.pairwise_cons.mpr ⟨fun y hy => ?_, hin⟩
  obtain ⟨i, q, hq⟩ := hpath y hy
  rw [hq]
  exact List.nil_lt_cons i q

/-- In postorder each visible composite stands behind those inside it and those left of it. -/
theorem enumerates_postorder (s : Setting) : Enumerates s PostBefore s.postorder := by
  refine .of_sorted PostBefore.irrefl ?_ fun _ _ => mem_postorder_iff
  refine pairwise_sites ⟨keeps_concat, .left, .under, fun hin hpath => ?_⟩ s
  refine List.pairwise_append.mpr ⟨hin, List.pairwise_singleton _ _, fun y hy z hz => ?_⟩
  obtain ⟨i, q, hq⟩ := hpath y hy
  rw [hq, List.mem_singleton.mp hz]
  exact .inside

end SettingsCompiler.Setting
