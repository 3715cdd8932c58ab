import SettingsCompiler.Proofs.Pruning
import SettingsCompiler.Proofs.Tabulation

/-!
# The first flaw of a tree

A setting is flawed if no table can show it : a composite without a list of settings, or another
setting whose default does not fit its kind, comment entries aside (`Setting.isFlawed`). The tables
of a root show its visible settings, which are the root and what is not internal under a visible
composite (`VisibleSetting`). `visibleSettings` lists them by increasing paths, each in front of
those inside it.

A run numbers a composite on the way in, then goes through its list, and makes the literal of a
composite when the tables inside it are done. None of this shows in its fault. From every registry
a run over a composite ends in the fault of the first flawed setting in the list of those visible
in it (`error?_tabulate`). The reason is `error?_bind` : what follows in a run ends in the same
fault whatever was registered before it.

Pruning takes internal settings and comment entries out, and none of these is visible and flawed.
So the first flaw of a tree is that of the pruned tree (`firstFlaw?_prune`). `reportsFlaws` puts
this together for a root.
-/

namespace SettingsCompiler

namespace Registering

variable {ε α β : Type}

/-- The fault that a computation ends in, from some registry. -/
def error? (m : Registering ε α) (r : Registry) : Option ε :=
  match (m.runFrom r).1 with
  | .ok _ => none
  | .error e => some e

/-- The fault is what the run reports. -/
theorem error?_eq_some_iff {m : Registering ε α} {r : Registry} {e : ε} :
    m.error? r = some e ↔ (m.runFrom r).1 = .error e := by
  rw [error?]
  cases (m.runFrom r).1 <;> simp

@[simp] theorem error?_pure (a : α) (r : Registry) : (pure a : Registering ε α).error? r = none :=
  rfl

@[simp] theorem error?_throw (e : ε) (r : Registry) :
    (throw e : Registering ε α).error? r = some e := rfl

/-- A sequence ends in the fault of its first part. Where there is none, it ends in that of the
second part, if this is the same from everywhere. -/
theorem error?_bind {m : Registering ε α} {next : α → Registering ε β} {r : Registry}
    {o : Option ε} (h : m.error? r = none → ∀ a r', (next a).error? r' = o) :
    (m >>= next).error? r = (m.error? r).or o := by
  rw [error?] at h
  rw [error?, error?, runFrom_bind]
  cases hrun : m.runFrom r with
  | mk outcome r₁ =>
    rw [hrun] at h
    cases outcome with
    | error e => rfl
    | ok a => exact h rfl a r₁

end Registering

namespace Setting

open Header Registering

/-! ## Visible settings -/

/-- `x` is a setting of the tree of `root`, at the given path, that is the root or stands under a
visible composite and is not internal. -/
inductive VisibleSetting (root : Setting) : List Nat → Setting → Prop
  | root : VisibleSetting root [] root
  | child {path : List Nat} {x c : Setting} {i : Nat} : VisibleSetting root path x →
      x.info.kind.isComposite = true → x.children[i]? = some c → c.info.internal = false →
      VisibleSetting root (path ++ [i]) c

theorem visibleSetting_nil_iff {root x : Setting} : VisibleSetting root [] x ↔ x = root := by
  constructor
  · intro h
    generalize hp : ([] : List Nat) = path at h
    cases h with
    | root => rfl
    | child => simp at hp
  · rintro rfl
    exact .root

/-- The first step of a path leads to a visible setting among those of a composite. -/
theorem visibleSetting_cons_iff {root x : Setting} {i : Nat} {path : List Nat} :
    VisibleSetting root (i :: path) x ↔ root.info.kind.isComposite = true ∧
      ∃ c, root.children[i]? = some c ∧ c.info.internal = false ∧ VisibleSetting c path x := by
  constructor
  · intro h
    generalize hp : i :: path = whole at h
    induction h generalizing path with
    | root => cases hp
    | @child before y c j hy hcomp hc hint ih =>
      cases before with
      | nil =>
        obtain ⟨rfl, rfl⟩ := List.cons.inj hp
        rw [visibleSetting_nil_iff.mp hy] at hc hcomp
        exact ⟨hcomp, c, hc, hint, .root⟩
      | cons k before =>
        obtain ⟨rfl, rfl⟩ := List.cons.inj hp
        obtain ⟨hroot, d, hd, hdint, hvis⟩ := ih rfl
        exact ⟨hroot, d, hd, hdint, hvis.child hcomp hc hint⟩
  · rintro ⟨hcomp, c, hc, hint, hvis⟩
    induction hvis with
    | root =>
      have h : VisibleSetting root ([] ++ [i]) c := VisibleSetting.root.child hcomp hc hint
      exact h
    | child _ hdcomp hd hdint ih => exact ih.child hdcomp hd hdint

/-- The visible composites are the composites among the visible settings. -/
theorem visible_iff_visibleSetting {root x : Setting} {path : List Nat}
    (h : root.info.kind.isComposite = true) :
    Visible root path x ↔ VisibleSetting root path x ∧ x.info.kind.isComposite = true := by
  constructor
  · intro hx
    induction hx with
    | root => exact ⟨.root, h⟩
    | child _ hc ht ih =>
      rw [isTabled, Bool.and_eq_true, Bool.not_eq_true'] at ht
      exact ⟨ih.1.child ih.2 hc ht.1, ht.2⟩
  · rintro ⟨hx, hcomp⟩
    induction hx with
    | root => exact .root
    | child _ hy hc hint ih => exact (ih hy).child hc (by simp [isTabled, hint, hcomp])

mutual

/-- The visible settings of a tree, each in front of those inside it. -/
def visibleSettings : Setting → List Site
  | leaf info value => [⟨[], leaf info value⟩]
  | group info cs =>
    ⟨[], group info cs⟩ :: if info.kind.isComposite then visibleSettingsFrom 0 cs else []

/-- The visible settings of the trees in a list, the first of them at position `i`. -/
def visibleSettingsFrom (i : Nat) : List Setting → List Site
  | [] => []
  | c :: cs =>
    (if c.info.internal then [] else (visibleSettings c).map (Site.under i)) ++
      visibleSettingsFrom (i + 1) cs

end

theorem visibleSettings_eq (s : Setting) : visibleSettings s =
    ⟨[], s⟩ :: if s.info.kind.isComposite then visibleSettingsFrom 0 s.children else [] := by
  cases s with
  | leaf info value => simp [visibleSettings, visibleSettingsFrom, children]
  | group info cs =>
    rw [visibleSettings]
    rfl

mutual

/-- The settings listed are the visible ones. -/
theorem mem_visibleSettings_iff : ∀ (s : Setting) {path : List Nat} {x : Setting},
    ⟨path, x⟩ ∈ visibleSettings s ↔ VisibleSetting s path x
  | leaf info value, [], x => by simp [visibleSettings, visibleSetting_nil_iff]
  | leaf info value, i :: path, x => by simp [visibleSettings, visibleSetting_cons_iff, children]
  | group info cs, [], x => by
    have hroot : (⟨[], x⟩ : Site) ∉ visibleSettingsFrom 0 cs := by
      rw [mem_visibleSettingsFrom_iff cs]
      simp
    rw [visibleSettings, visibleSetting_nil_iff]
    cases info.kind.isComposite <;> simp [hroot]
  | group info cs, i :: path, x => by
    have hinside : ⟨i :: path, x⟩ ∈ visibleSettingsFrom 0 cs ↔ ∃ c, cs[i]? = some c ∧
        c.info.internal = false ∧ VisibleSetting c path x := by
      rw [mem_visibleSettingsFrom_iff cs]
      simp
    rw [visibleSettings, visibleSetting_cons_iff, info_group, children]
    cases info.kind.isComposite <;> simp [hinside]

/-- The visible settings of a list of trees, each with the position of its tree in front of its
path. -/
theorem mem_visibleSettingsFrom_iff : ∀ (cs : List Setting) {i : Nat} {path : List Nat}
    {x : Setting}, ⟨path, x⟩ ∈ visibleSettingsFrom i cs ↔
      ∃ j c q, cs[j]? = some c ∧ c.info.internal = false ∧ path = (i + j) :: q ∧
        VisibleSetting c q x
  | [], i, path, x => by simp [visibleSettingsFrom]
  | c :: cs, i, path, x => by
    have hfirst : ⟨path, x⟩ ∈ (if c.info.internal then [] else
          (visibleSettings c).map (Site.under i)) ↔
        c.info.internal = false ∧ ∃ q, path = i :: q ∧ VisibleSetting c q x := by
      cases hint : c.info.internal with
      | true => simp
      | false =>
        simp only [Bool.false_eq_true, if_false, List.mem_map, true_and]
        constructor
        · rintro ⟨⟨q, y⟩, hy, he⟩
          simp only [Site.under, Site.mk.injEq] at he
          obtain ⟨rfl, rfl⟩ := he
          exact ⟨q, rfl, (mem_visibleSettings_iff c).mp hy⟩
        · rintro ⟨q, rfl, hvis⟩
          exact ⟨⟨q, x⟩, (mem_visibleSettings_iff c).mpr hvis, rfl⟩
    rw [visibleSettingsFrom, List.mem_append, hfirst, mem_visibleSettingsFrom_iff cs]
    constructor
    · rintro (⟨hint, q, hp, hvis⟩ | ⟨j, d, q, hd, hint, hp, hvis⟩)
      · exact ⟨0, c, q, by simp, hint, by simpa using hp, hvis⟩
      · exact ⟨j + 1, d, q, by simpa using hd, hint, by rw [hp]; congr 1; omega, hvis⟩
    · rintro ⟨j, d, q, hd, hint, hp, hvis⟩
      cases j with
      | zero =>
        obtain rfl : c = d := by simpa using hd
        exact .inl ⟨hint, q, by simpa using hp, hvis⟩
      | succ j =>
        exact .inr ⟨j, d, q, by simpa using hd, hint, by rw [hp]; congr 1; omega, hvis⟩

end

theorem exists_path_of_mem_visibleSettingsFrom {cs : List Setting} {i : Nat} {y : Site}
    (hy : y ∈ visibleSettingsFrom i cs) : ∃ j q, i ≤ j ∧ y.path = j :: q := by
  obtain ⟨j, -, q, -, -, hp, -⟩ := (mem_visibleSettingsFrom_iff cs (x := y.setting)).mp hy
  exact ⟨i + j, q, Nat.le_add_right i j, hp⟩

mutual

/-- The visible settings are listed by increasing paths. -/
theorem pairwise_visibleSettings :
    ∀ s : Setting, (visibleSettings s).Pairwise fun a b => a.path < b.path
  | leaf info value => List.pairwise_singleton _ _
  | group info cs => by
    rw [visibleSettings, List.pairwise_cons]
    split
    · refine ⟨fun y hy => ?_, pairwise_visibleSettingsFrom cs 0⟩
      obtain ⟨j, q, -, hq⟩ := exists_path_of_mem_visibleSettingsFrom hy
      rw [hq]
      exact List.nil_lt_cons j q
    · exact ⟨by simp, List.Pairwise.nil⟩

/-- Those of a list are so as well. -/
theorem pairwise_visibleSettingsFrom : ∀ (cs : List Setting) (i : Nat),
    (visibleSettingsFrom i cs).Pairwise fun a b => a.path < b.path
  | [], i => List.Pairwise.nil
  | c :: cs, i => by
    rw [visibleSettingsFrom, List.pairwise_append]
    refine ⟨?_, pairwise_visibleSettingsFrom cs (i + 1), fun a hfirst b hrest => ?_⟩
    · split
      · exact List.Pairwise.nil
      · rw [List.pairwise_map]
        exact (pairwise_visibleSettings c).imp fun h => List.cons_lt_cons_iff.mpr (.inr ⟨rfl, h⟩)
    · obtain ⟨j, q, hij, hq⟩ := exists_path_of_mem_visibleSettingsFrom hrest
      split at hfirst
      · cases hfirst
      · obtain ⟨a, -, rfl⟩ := List.mem_map.mp hfirst
        rw [hq]
        exact List.cons_lt_cons_iff.mpr (.inl hij)

end

/-! ## Flaws -/

/-- Whether a setting is one that no table can be made with : a composite without a list of
settings, or another setting but a comment entry whose default does not fit its kind. -/
def isFlawed (s : Setting) : Bool :=
  !s.isComment && !s.isWellFormed

/-- The fault that a flawed setting is reported with. -/
def flaw (s : Setting) : Fault :=
  if s.info.kind.isComposite then s.dangling else s.mismatch

/-- The fault of the first flawed setting of a list of places. -/
def firstFlaw? (sites : List Site) : Option Fault :=
  (sites.find? fun y => y.setting.isFlawed).map fun y => y.setting.flaw

@[simp] theorem firstFlaw?_nil : firstFlaw? [] = none := rfl

theorem firstFlaw?_cons (y : Site) (l : List Site) : firstFlaw? (y :: l) =
    if y.setting.isFlawed then some y.setting.flaw else firstFlaw? l := by
  rw [firstFlaw?, List.find?_cons]
  cases y.setting.isFlawed <;> rfl

/-- The first flaw of two lists is that of the first one if it has any. -/
theorem firstFlaw?_append (l l' : List Site) :
    firstFlaw? (l ++ l') = (firstFlaw? l).or (firstFlaw? l') := by
  rw [firstFlaw?, List.find?_append, Option.map_or]
  rfl

@[simp] theorem firstFlaw?_map_under (i : Nat) (l : List Site) :
    firstFlaw? (l.map (Site.under i)) = firstFlaw? l := by
  rw [firstFlaw?, List.find?_map, Option.map_map]
  rfl

/-- There is no flaw exactly if no setting is flawed. -/
theorem firstFlaw?_eq_none_iff {l : List Site} :
    firstFlaw? l = none ↔ ∀ y ∈ l, y.setting.isFlawed = false := by
  simp [firstFlaw?]

theorem exists_firstFlaw?_iff {l : List Site} :
    (∃ e, firstFlaw? l = some e) ↔ ∃ y ∈ l, y.setting.isFlawed = true := by
  rw [← Option.isSome_iff_exists, firstFlaw?, Option.isSome_map, List.find?_isSome]

/-- In a list by increasing paths, the first flawed setting is the one at the least path. -/
theorem firstFlaw?_eq_some_iff {l : List Site} (hl : l.Pairwise fun a b => a.path < b.path)
    {e : Fault} : firstFlaw? l = some e ↔ ∃ y ∈ l, y.setting.isFlawed = true ∧
      (∀ z ∈ l, z.setting.isFlawed = true → ¬z.path < y.path) ∧ e = y.setting.flaw := by
  induction l with
  | nil => simp
  | cons a l ih =>
    obtain ⟨hfirst, hrest⟩ := List.pairwise_cons.mp hl
    rw [firstFlaw?_cons]
    split
    · next hflawed =>
      constructor
      · intro h
        refine ⟨a, List.mem_cons_self, hflawed, fun z hz _ hlt => ?_, (Option.some.inj h).symm⟩
        rcases List.mem_cons.mp hz with rfl | hz
        · exact List.lt_irrefl _ hlt
        · exact List.lt_irrefl _ (List.lt_trans hlt (hfirst z hz))
      · rintro ⟨y, hy, -, hleast, rfl⟩
        rcases List.mem_cons.mp hy with rfl | hy
        · rfl
        · exact absurd (hfirst y hy) (hleast a List.mem_cons_self hflawed)
    · next hsound =>
      rw [ih hrest]
      simp [hsound]

theorem isFlawed_of_isComment {s : Setting} (h : s.isComment = true) : s.isFlawed = false := by
  rw [isFlawed, h]
  rfl

/-- A composite is flawed if it has no list of settings. -/
theorem isFlawed_of_isComposite {s : Setting} (h : s.info.kind.isComposite = true) :
    s.isFlawed = match s with
      | leaf _ _ => true
      | group _ _ => false := by
  have hcom : s.isComment = false := by
    by_contra hcom
    rw [isComposite_of_isComment (by simpa using hcom)] at h
    cases h
  rw [isFlawed, hcom]
  cases s with
  | leaf info value =>
    rw [info_leaf] at h
    rw [isWellFormed, Value.fits_of_isComposite value h]
    rfl
  | group info cs =>
    rw [info_group] at h
    rw [isWellFormed, h]
    rfl

/-- Nothing but itself is visible in a setting that is no composite. -/
theorem visibleSettings_of_not_isComposite {s : Setting} (h : s.info.kind.isComposite = false) :
    visibleSettings s = [⟨[], s⟩] := by
  rw [visibleSettings_eq, h]
  rfl

/-- An internal setting or a comment entry adds no flaw to a list. -/
theorem firstFlaw?_of_not_isDocumented {c : Setting} (h : c.isDocumented = false) (i : Nat) :
    firstFlaw? (if c.info.internal then [] else (visibleSettings c).map (Site.under i)) = none := by
  cases hint : c.info.internal with
  | true => rfl
  | false =>
    have hcom : c.isComment = true := by simpa [isDocumented, hint] using h
    rw [if_neg Bool.false_ne_true, firstFlaw?_map_under,
      visibleSettings_of_not_isComposite (isComposite_of_isComment hcom), firstFlaw?_cons,
      isFlawed_of_isComment hcom]
    rfl

/-! ## A run stops at the first flaw -/

theorem ofValue?_eq_none {kind : Kind} {value : Value} (h : value.fits kind = false)
    (hcomp : kind.isComposite = false) : Literal.ofValue? kind value = none := by
  cases kind <;> cases value <;>
    simp_all [Value.fits, Literal.ofValue?, Kind.isComposite, Kind.isTextual]

/-- A setting that is no composite has a literal unless it is flawed. -/
theorem error?_encode {s : Setting} (hcom : s.isComment = false)
    (hcomp : s.info.kind.isComposite = false) (r : Registry) :
    (Registering.ofExcept (s.encode none)).error? r = firstFlaw? (visibleSettings s) := by
  rw [visibleSettings_of_not_isComposite hcomp, firstFlaw?_cons, isFlawed, flaw, hcom, hcomp]
  cases hwell : s.isWellFormed with
  | true =>
    obtain ⟨l, hl⟩ := exists_encode hwell none fun h => by rw [hcomp] at h; cases h
    rw [hl]
    rfl
  | false =>
    have hmismatch : s.encode none = .error s.mismatch := by
      cases s with
      | leaf info value =>
        have hnone : Literal.ofValue? info.kind value = none := ofValue?_eq_none hwell hcomp
        rw [info_leaf] at hcomp
        simp [encode, hcom, hcomp, hnone]
      | group info cs =>
        rw [info_group] at hcomp
        simp [encode, hcom, hcomp]
    rw [hmismatch]
    rfl

mutual

/-- A run over a composite ends in the fault of the first flawed setting visible in it, from
every registry. -/
theorem error?_tabulate : ∀ (s : Setting), s.info.kind.isComposite = true → ∀ r : Registry,
    (tabulate s).error? r = firstFlaw? (visibleSettings s)
  | leaf info value, hcomp, r => by
    have hflawed : (leaf info value).isFlawed = true := isFlawed_of_isComposite hcomp
    rw [visibleSettings, firstFlaw?_cons, if_pos hflawed, flaw, if_pos hcomp, tabulate]
    exact error?_bind fun _ _ r' => error?_throw (leaf info value).dangling r'
  | group info cs, hcomp, r => by
    have hsound : (group info cs).isFlawed = false := isFlawed_of_isComposite hcomp
    have hfields : (group info cs).fields = .ok cs := if_pos hcomp
    rw [info_group] at hcomp
    rw [visibleSettings, firstFlaw?_cons, hsound, if_neg Bool.false_ne_true, if_pos hcomp,
      tabulate, hfields]
    refine error?_bind fun _ name r₁ => error?_bind fun _ _ r₂ => ?_
    rw [error?_bind fun _ _ => error?_pure _, Option.or_none]
    exact error?_tabulateAll cs 0 0 r₂

/-- A run over a list ends in the fault of the first flawed setting of those visible in it, from
every registry and at any index. -/
theorem error?_tabulateAll : ∀ (cs : List Setting) (i index : Nat) (r : Registry),
    (tabulateAll index cs).error? r = firstFlaw? (visibleSettingsFrom i cs)
  | [], i, index, r => rfl
  | c :: cs, i, index, r => by
    -- The rest ends in the same way, whatever `c` contributes and registers.
    have rest (nested : List Table) (row : List Row) (r : Registry) :
        (tabulateAll (index + memberCount c.info.kind) cs >>= fun p =>
          pure (nested ++ p.1, row ++ p.2) : Registering Fault (List Table × List Row)).error? r =
          firstFlaw? (visibleSettingsFrom (i + 1) cs) := by
      rw [error?_bind fun _ _ => error?_pure _, Option.or_none, error?_tabulateAll cs (i + 1)]
    rw [visibleSettingsFrom, firstFlaw?_append, tabulateAll]
    split
    · next hcom =>
      obtain ⟨l, hl⟩ : ∃ l, c.encode none = .ok l := ⟨_, if_pos hcom⟩
      rw [firstFlaw?_of_not_isDocumented (by simp [isDocumented, hcom]), hl]
      exact error?_bind fun _ l r' => rest [] [Row.ofComment l] r'
    · next hcom =>
      rw [Bool.not_eq_true] at hcom
      split
      · exact rest [] [] r
      · rw [firstFlaw?_map_under]
        split
        · next hcomp =>
          rw [← error?_tabulate c hcomp r]
          refine error?_bind fun hnone ⟨nested, name⟩ r₁ => ?_
          -- Where the run over `c` ends well, `c` has its list, and so a literal.
          have hsound : c.isFlawed = false := by
            rw [error?_tabulate c hcomp, firstFlaw?_eq_none_iff, visibleSettings_eq] at hnone
            exact hnone _ List.mem_cons_self
          obtain ⟨l, hl⟩ := exists_encode (s := c) (by simpa [isFlawed, hcom] using hsound)
            (some name.infoIdent) fun _ => rfl
          dsimp only
          rw [hl]
          exact error?_bind fun _ l r' => rest nested [Row.ofMember c.info index l] r'
        · next hcomp =>
          rw [Bool.not_eq_true] at hcomp
          rw [← error?_encode hcom hcomp r]
          exact error?_bind fun _ l r' => rest [] [Row.ofMember c.info index l] r'

end

/-- The tables of a root end in the fault of its first flaw. -/
theorem error?_tables {root : Setting} (h : root.info.kind = .struct) (r : Registry) :
    root.tables.error? r = firstFlaw? (visibleSettings root) := by
  have hcomp : root.info.kind.isComposite = true := by
    rw [h]
    rfl
  rw [tables, if_pos h, error?_bind fun _ _ => error?_pure _, Option.or_none]
  exact error?_tabulate root hcomp r

/-! ## Flaws of a pruned tree -/

mutual

/-- A tree has the same first flaw when it is pruned. -/
theorem firstFlaw?_prune : ∀ s : Setting,
    firstFlaw? (visibleSettings s.prune) = firstFlaw? (visibleSettings s)
  | leaf info value => rfl
  | group info cs => by
    have inside := firstFlaw?_pruneAll cs 0 0
    have same : (group info (pruneAll cs)).isFlawed = (group info cs).isFlawed := rfl
    rw [prune, visibleSettings, visibleSettings, firstFlaw?_cons, firstFlaw?_cons, same]
    cases info.kind.isComposite with
    | true => rw [if_pos rfl, if_pos rfl, inside]; rfl
    | false => rfl

/-- A list has the same first flaw when it is pruned, wherever its settings stand. -/
theorem firstFlaw?_pruneAll : ∀ (cs : List Setting) (i j : Nat),
    firstFlaw? (visibleSettingsFrom i (pruneAll cs)) = firstFlaw? (visibleSettingsFrom j cs)
  | [], i, j => rfl
  | c :: cs, i, j => by
    rw [visibleSettingsFrom, firstFlaw?_append]
    cases hdoc : c.isDocumented with
    | false =>
      rw [pruneAll, hdoc, if_neg Bool.false_ne_true, firstFlaw?_of_not_isDocumented hdoc,
        Option.none_or]
      exact firstFlaw?_pruneAll cs i (j + 1)
    | true =>
      have hshown := hdoc
      rw [isDocumented, Bool.and_eq_true, Bool.not_eq_true'] at hshown
      have hint : c.info.internal = false := hshown.1
      rw [pruneAll, hdoc, if_pos rfl, visibleSettingsFrom, firstFlaw?_append, info_prune, hint,
        if_neg Bool.false_ne_true, if_neg Bool.false_ne_true, firstFlaw?_map_under,
        firstFlaw?_map_under, firstFlaw?_prune c, firstFlaw?_pruneAll cs (i + 1) (j + 1)]

end

/-! ## The fault of a root -/

/-- When the tables of a root fail, and how. The visible composites are those that have tables,
and a run fails exactly if a visible setting is flawed. Its fault is that of the first of them, by
paths, from every registry. Internal settings and comment entries have no part in it, at any depth,
so roots that differ in these alone fail alike. -/
structure ReportsFlaws (root : Setting) : Prop where
  visible_iff : ∀ path x, Visible root path x ↔
    VisibleSetting root path x ∧ x.info.kind.isComposite = true
  fails_iff : ∀ r, (∃ e, (root.tables.runFrom r).1 = .error e) ↔
    ∃ path x, VisibleSetting root path x ∧ x.isFlawed = true
  first : ∀ r e, (root.tables.runFrom r).1 = .error e ↔
    ∃ path x, VisibleSetting root path x ∧ x.isFlawed = true ∧
      (∀ path' x', VisibleSetting root path' x' → x'.isFlawed = true → ¬path' < path) ∧
      e = x.flaw
  pruned : ∀ r r' e, (root.tables.runFrom r).1 = .error e ↔
    (root.prune.tables.runFrom r').1 = .error e
  alike : ∀ other : Setting, other.prune = root.prune → ∀ r r' e,
    (root.tables.runFrom r).1 = .error e ↔ (other.tables.runFrom r').1 = .error e

/-- The tables of a root fail exactly with the fault of its first flaw. -/
theorem tables_eq_error_iff {root : Setting} (h : root.info.kind = .struct) {r : Registry}
    {e : Fault} : (root.tables.runFrom r).1 = .error e ↔
      firstFlaw? (visibleSettings root) = some e := by
  rw [← error?_eq_some_iff, error?_tables h]

/-- Every root has its first visible flaw reported and no other, whatever names are registered,
and pruning neither hides nor adds one. -/
theorem reportsFlaws {root : Setting} (h : root.info.kind = .struct) : ReportsFlaws root where
  visible_iff path x := visible_iff_visibleSetting (by rw [h]; rfl)
  fails_iff r := by
    simp only [tables_eq_error_iff h]
    rw [exists_firstFlaw?_iff]
    constructor
    · rintro ⟨⟨path, x⟩, hx, hflawed⟩
      exact ⟨path, x, (mem_visibleSettings_iff root).mp hx, hflawed⟩
    · rintro ⟨path, x, hx, hflawed⟩
      exact ⟨⟨path, x⟩, (mem_visibleSettings_iff root).mpr hx, hflawed⟩
  first r e := by
    rw [tables_eq_error_iff h, firstFlaw?_eq_some_iff (pairwise_visibleSettings root)]
    constructor
    · rintro ⟨⟨path, x⟩, hx, hflawed, hleast, he⟩
      exact ⟨path, x, (mem_visibleSettings_iff root).mp hx, hflawed,
        fun path' x' hx' => hleast ⟨path', x'⟩ ((mem_visibleSettings_iff root).mpr hx'), he⟩
    · rintro ⟨path, x, hx, hflawed, hleast, he⟩
      exact ⟨⟨path, x⟩, (mem_visibleSettings_iff root).mpr hx, hflawed,
        fun y hy => hleast y.path y.setting ((mem_visibleSettings_iff root).mp hy), he⟩
  pruned r r' e := by
    have hprune : root.prune.info.kind = .struct := by rw [info_prune, h]
    rw [tables_eq_error_iff h, tables_eq_error_iff hprune, firstFlaw?_prune]
  alike other hother r r' e := by
    have hkind : other.info.kind = .struct := by
      rw [← info_prune, hother, info_prune, h]
    rw [tables_eq_error_iff h, tables_eq_error_iff hkind, ← firstFlaw?_prune root, ← hother,
      firstFlaw?_prune other]

/-- A root with flaws in an internal setting, below an internal composite and in a comment entry,
and with two others behind these, of which the first is inside a composite. -/
def cracked : Setting :=
  .makeGroup "Cracked" .struct [(Setting.make "Cache" .int (.text "big") "").asInternal,
    (Setting.makeGroup "State" .struct [.make "Page" .struct .null ""] "").asInternal,
    .make "" .comment (.bool true) "",
    .makeGroup "Pane" .compact [.make "Size" .int (.bool true) ""] "",
    .make "Frame" .struct .null ""] ""

/-- Of the flaws of `cracked`, those out of sight are passed over, and the first of the two
others is reported. -/
theorem reportsFlaws_cracked : cracked.info.kind = .struct ∧ ReportsFlaws cracked ∧
    (cracked.tables.runFrom .empty).1 = .error (.defaultMismatch "Size" .int) :=
  ⟨rfl, reportsFlaws rfl, rfl⟩

end Setting
end SettingsCompiler
