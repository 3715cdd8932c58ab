import SettingsCompiler.Proofs.Ownership
import SettingsCompiler.Proofs.Progress
import Mathlib.Data.List.Nodup

/-!
# Structs that are defined once

The pass over the structs registers the name of each owning composite that it enters, and
enters none whose name is registered. So the definitions made below the roots have names of
their own (`enrols_originsAll`), and where the naming convention is kept, structs of their own.

The name of a root is never registered. A root's struct is thus defined once more wherever an
owning composite of the root's name is entered, in the same root, an earlier or a later one
(`not_nodup_themes`), and this is the one way in which a struct is defined twice
(`definesOnce`).
-/

namespace SettingsCompiler

namespace Setting

open Header

/-! ## Names that a run registers -/

/-- The name of the composite that a definition is made from. -/
def Origin.name (o : Origin) : String :=
  o.setting.info.name

/-- Whether an origin is below a root. -/
def Origin.isNested (o : Origin) : Bool :=
  !o.around.isEmpty

/-- From the names registered in `r` a run has come to those in `r'` : it registered the names
of some owning composites, none of them twice or a second time. -/
structure Enrols (r : Registry) (l : List Origin) (r' : Registry) : Prop where
  owns : ∀ o ∈ l, o.Owns o.name
  fresh : ∀ o ∈ l, r.contains o.name = false
  nodup : (l.map Origin.name).Nodup
  contains_iff : ∀ n, r'.contains n = true ↔ r.contains n = true ∨ ∃ o ∈ l, o.name = n

namespace Enrols

variable {r r₁ r' : Registry} {l l' : List Origin}

theorem nil (r : Registry) : Enrols r [] r := by
  constructor <;> simp

theorem append (h : Enrols r l r₁) (h' : Enrols r₁ l' r') : Enrols r (l ++ l') r' where
  owns := List.forall_mem_append.mpr ⟨h.owns, h'.owns⟩
  fresh := by
    refine List.forall_mem_append.mpr ⟨h.fresh, fun o ho => ?_⟩
    by_contra hr
    have hr₁ := (h.contains_iff o.name).mpr (.inl (by simpa using hr))
    rw [h'.fresh o ho] at hr₁
    cases hr₁
  nodup := by
    rw [List.map_append]
    refine List.nodup_append.mpr ⟨h.nodup, h'.nodup, fun n hn m hm hnm => ?_⟩
    obtain ⟨o, ho, rfl⟩ := List.mem_map.mp hn
    obtain ⟨o', ho', rfl⟩ := List.mem_map.mp hm
    have hr₁ := (h.contains_iff o'.name).mpr (.inr ⟨o, ho, hnm⟩)
    rw [h'.fresh o' ho'] at hr₁
    cases hr₁
  contains_iff n := by
    rw [h'.contains_iff, h.contains_iff, or_assoc]
    simp only [List.mem_append, or_and_right, exists_or]

/-- A free name is registered for its owning composite. -/
theorem bump {o : Origin} (ho : o.Owns o.name) (hfree : r.contains o.name = false) :
    Enrols r [o] (r.bump o.name) where
  owns := by simpa using ho
  fresh := by simpa using hfree
  nodup := List.nodup_singleton _
  contains_iff n := by
    simp only [Registry.contains_bump_iff, List.mem_singleton, exists_eq_left]
    rw [or_comm, @eq_comm _ n]

theorem perm (h : Enrols r l r') (hl : l.Perm l') : Enrols r l' r' where
  owns o ho := h.owns o (hl.mem_iff.mpr ho)
  fresh o ho := h.fresh o (hl.mem_iff.mpr ho)
  nodup := (hl.map Origin.name).nodup_iff.mp h.nodup
  contains_iff n := by simpa only [hl.mem_iff] using h.contains_iff n

/-- A composite is registered before the run goes into it, and defined behind what is in it. -/
theorem enter {o : Origin} (ho : o.Owns o.name) (hfree : r.contains o.name = false)
    (h : Enrols (r.bump o.name) l r') : Enrols r (l ++ [o]) r' :=
  ((bump ho hfree).append h).perm (List.perm_append_singleton o l).symm

end Enrols

mutual

/-- Going into an owning composite registers its name and those of the definitions inside it. -/
theorem enrols_origins : ∀ (s : Setting) {around : List Setting} {r : Registry},
    s.isOwner = true → r.contains s.info.name = false →
    Enrols r (origins (s :: around) (r.bump s.info.name) s).1
      (origins (s :: around) (r.bump s.info.name) s).2
  | leaf info value, around, _, howner, hfree =>
    (Enrols.nil _).enter (o := ⟨leaf info value, leaf info value :: around⟩)
      ⟨List.cons_ne_nil _ _, howner, rfl⟩ hfree
  | group info cs, around, _, howner, hfree =>
    (enrols_originsAll cs).enter (o := ⟨group info cs, group info cs :: around⟩)
      ⟨List.cons_ne_nil _ _, howner, rfl⟩ hfree

/-- A run over a list registers the names of the definitions that it makes. -/
theorem enrols_originsAll : ∀ (cs : List Setting) {around : List Setting} {r : Registry},
    Enrols r (originsAll around r cs).1 (originsAll around r cs).2
  | [], around, r => .nil r
  | c :: cs, around, r => by
    rw [originsAll]
    refine Enrols.append ?_ (enrols_originsAll cs)
    split
    · next hdef =>
      rw [Bool.and_eq_true, Bool.not_eq_true'] at hdef
      exact enrols_origins c hdef.1 hdef.2
    · exact .nil r

end

mutual

/-- The origins for a composite stand in its tree. -/
theorem within_of_mem_origins {o : Origin} : ∀ (s : Setting) {around : List Setting}
    {r : Registry}, o ∈ (origins around r s).1 → Within s o.setting
  | leaf info value, around, r, h => by
    rw [origins, List.mem_singleton] at h
    rw [h]
    exact .root
  | group info cs, around, r, h => by
    rw [origins, List.mem_append, List.mem_singleton] at h
    rcases h with h | rfl
    · obtain ⟨c, hc, hin⟩ := within_of_mem_originsAll cs h
      exact .of_child hc hin
    · exact .root

theorem within_of_mem_originsAll {o : Origin} : ∀ (cs : List Setting) {around : List Setting}
    {r : Registry}, o ∈ (originsAll around r cs).1 → ∃ c ∈ cs, Within c o.setting
  | [], around, r, h => by simp [originsAll] at h
  | c :: cs, around, r, h => by
    rw [originsAll, List.mem_append] at h
    rcases h with h | h
    · split at h
      · exact ⟨c, List.mem_cons_self, within_of_mem_origins c h⟩
      · cases h
    · obtain ⟨d, hd, hin⟩ := within_of_mem_originsAll cs h
      exact ⟨d, List.mem_cons_of_mem c hd, hin⟩

end

/-- The origins for a root are those inside it and the root itself. -/
theorem origins_root (r : Registry) (root : Setting) :
    origins [] r root = ((originsAll [] r root.children).1 ++ [⟨root, []⟩],
      (originsAll [] r root.children).2) := by
  cases root <;> rfl

end Setting

namespace Header

open Setting

/-! ## Definitions below the roots and of the roots -/

theorem isNested_of_mem {cs : List Setting} {r : Registry} {o : Origin}
    (ho : o ∈ (originsAll [] r cs).1) : o.isNested = true := by
  simpa [Origin.isNested] using ((enrols_originsAll cs).owns o ho).1

/-- Below the root stand the origins for its list. -/
theorem filter_isNested_origins (r : Registry) (root : Setting) :
    (origins [] r root).1.filter Origin.isNested = (originsAll [] r root.children).1 := by
  rw [origins_root, List.filter_append, List.filter_eq_self.mpr fun o ho => isNested_of_mem ho]
  exact List.append_nil _

theorem filter_not_isNested_origins (r : Registry) (root : Setting) :
    (origins [] r root).1.filter (fun o => !o.isNested) = [⟨root, []⟩] := by
  rw [origins_root, List.filter_append,
    List.filter_eq_nil_iff.mpr fun o ho => by simp [isNested_of_mem ho]]
  rfl

/-- A run over roots registers the names of the definitions made below them. -/
theorem exists_enrols_nested : ∀ (roots : List Setting) (r : Registry),
    ∃ r', Enrols r ((allOriginsFrom r roots).filter Origin.isNested) r'
  | [], r => ⟨r, .nil r⟩
  | root :: roots, r => by
    obtain ⟨r', hrest⟩ := exists_enrols_nested roots (origins [] r root).2
    refine ⟨r', ?_⟩
    rw [allOriginsFrom, List.filter_append, filter_isNested_origins]
    have hroot : (origins [] r root).2 = (originsAll [] r root.children).2 := by
      rw [origins_root]
    exact (enrols_originsAll root.children).append (hroot ▸ hrest)

/-- The origins that are not below a root are the roots themselves, in order. -/
theorem filter_not_isNested : ∀ (roots : List Setting) (r : Registry),
    (allOriginsFrom r roots).filter (fun o => !o.isNested) = roots.map fun root => ⟨root, []⟩
  | [], r => rfl
  | root :: roots, r => by
    rw [allOriginsFrom, List.filter_append, filter_not_isNested_origins,
      filter_not_isNested roots]
    rfl

/-! ## The naming convention -/

/-- `x` is an owning composite in the tree of a root, below the root. -/
def OwnerBelow (roots : List Setting) (x : Setting) : Prop :=
  x.isOwner = true ∧ ∃ root ∈ roots, ∃ c ∈ root.children, Within c x

/-- The roots keep the naming convention : their names are distinct and those of their structs,
and no struct is owned under two names, by roots or by composites below them. -/
structure FollowsNames (roots : List Setting) : Prop where
  distinct : (roots.map fun root => root.info.name).Nodup
  root : ∀ root ∈ roots, root.info.structName = root.info.name
  one : ∀ x y, (x ∈ roots ∨ OwnerBelow roots x) → (y ∈ roots ∨ OwnerBelow roots y) →
    x.info.structName = y.info.structName → x.info.name = y.info.name

/-- An origin below a root is an owning composite of its tree. -/
theorem ownerBelow_of_isNested : ∀ {roots : List Setting} {r : Registry} {o : Origin},
    o ∈ allOriginsFrom r roots → o.isNested = true → OwnerBelow roots o.setting
  | root :: roots, r, o, ho, hnested => by
    rw [allOriginsFrom, List.mem_append] at ho
    rcases ho with ho | ho
    · have hin : o ∈ (originsAll [] r root.children).1 := by
        rw [← filter_isNested_origins]
        exact List.mem_filter.mpr ⟨ho, hnested⟩
      obtain ⟨c, hc, hx⟩ := within_of_mem_originsAll root.children hin
      have howner := ((enrols_originsAll root.children).owns o hin).2.1
      exact ⟨howner, root, List.mem_cons_self, c, hc, hx⟩
    · obtain ⟨howner, root', hroot', hx⟩ := ownerBelow_of_isNested ho hnested
      exact ⟨howner, root', List.mem_cons_of_mem root hroot', hx⟩

/-- Which structs of a header are defined once : all those defined below the roots are, and the
struct of a root is unless a composite that a definition is made from below some root has it. -/
structure DefinesOnce (roots : List Setting) (h : Header) : Prop where
  nested : (((allOrigins roots).filter Origin.isNested).map fun o => o.definition.name).Nodup
  nodup_iff : (h.structs.map StructDef.name).Nodup ↔
    ∀ o ∈ allOrigins roots, o.isNested = true → ∀ root ∈ roots, o.definition.name ≠ root.info.name
  nodup : (∀ x, OwnerBelow roots x → ∀ root ∈ roots, x.info.name ≠ root.info.name) →
    (h.structs.map StructDef.name).Nodup

/-- Definitions made below roots that keep the convention are of different structs. -/
theorem nodup_nested {roots : List Setting} (hn : FollowsNames roots) :
    (((allOrigins roots).filter Origin.isNested).map fun o => o.definition.name).Nodup := by
  obtain ⟨r', henrols⟩ := exists_enrols_nested roots .empty
  rw [List.Nodup, List.pairwise_map]
  refine (List.pairwise_map.mp henrols.nodup).imp_of_mem fun {o o'} ho ho' hne hsame => ?_
  obtain ⟨ho, hnested⟩ := List.mem_filter.mp ho
  obtain ⟨ho', hnested'⟩ := List.mem_filter.mp ho'
  exact hne (hn.one _ _ (.inr (ownerBelow_of_isNested ho hnested))
    (.inr (ownerBelow_of_isNested ho' hnested')) hsame)

/-- Where the convention is kept, structs are defined once exactly if no definition made below a
root is that of a root. -/
theorem nodup_structs_iff {roots : List Setting} {h : Header} (hc : compile roots = .ok h)
    (hn : FollowsNames roots) : (h.structs.map StructDef.name).Nodup ↔
      ∀ o ∈ allOrigins roots, o.isNested = true → ∀ root ∈ roots,
        o.definition.name ≠ root.info.name := by
  have hperm := (List.filter_append_perm Origin.isNested (allOrigins roots)).map
    fun o => o.definition.name
  have hroots : ((allOrigins roots).filter fun o => !o.isNested).map (fun o => o.definition.name) =
      roots.map fun root => root.info.name := by
    rw [allOrigins, filter_not_isNested, List.map_map]
    exact List.map_congr_left hn.root
  have hnames : h.structs.map StructDef.name =
      (allOrigins roots).map fun o => o.definition.name := by
    rw [structs_of_compileFrom roots hc, List.map_map]
    rfl
  rw [hnames, ← hperm.nodup_iff, List.map_append, hroots, List.nodup_append]
  constructor
  · rintro ⟨-, -, hapart⟩ o ho hnested root hroot
    exact hapart _ (List.mem_map_of_mem (List.mem_filter.mpr ⟨ho, hnested⟩)) _
      (List.mem_map_of_mem hroot)
  · refine fun hapart => ⟨nodup_nested hn, hn.distinct, fun n hin m hm => ?_⟩
    obtain ⟨o, ho, rfl⟩ := List.mem_map.mp hin
    obtain ⟨root, hroot, rfl⟩ := List.mem_map.mp hm
    obtain ⟨ho, hnested⟩ := List.mem_filter.mp ho
    exact hapart o ho hnested root hroot

/-- In every header that compiles, structs below the roots are defined once ; that of a root is,
unless a composite below some root has it. -/
theorem definesOnce {roots : List Setting} {h : Header} (hc : compile roots = .ok h)
    (hn : FollowsNames roots) : DefinesOnce roots h where
  nested := nodup_nested hn
  nodup_iff := nodup_structs_iff hc hn
  nodup hapart := by
    refine (nodup_structs_iff hc hn).mpr fun o ho hnested root hroot hsame => ?_
    have hbelow := ownerBelow_of_isNested ho hnested
    exact hapart _ hbelow root hroot
      (hn.one _ _ (.inr hbelow) (.inl hroot) (hsame.trans (hn.root root hroot).symm))

/-! ### Two pairs of roots -/

/-- A struct with no comment. -/
def bare (name : String) (children : List Setting) : Setting :=
  .makeGroup name .struct children ""

/-- Two roots, a composite of one name in each. -/
def tabs : List Setting :=
  [bare "Pages" [bare "Margin" []], bare "Tabs" [bare "Margin" []]]

/-- Two roots, the second with a composite of the name of the first. -/
def themes : List Setting :=
  [bare "Theme" [], bare "Prefs" [bare "Theme" []]]

theorem eq_of_within_bare {name : String} {x : Setting} (h : Within (bare name []) x) :
    x = bare name [] := by
  rcases within_iff.mp h with rfl | ⟨c, hc, -⟩
  · rfl
  · cases hc

/-- The margin is the only owning composite below `tabs`. -/
theorem eq_of_ownerBelow_tabs {x : Setting} (h : OwnerBelow tabs x) : x = bare "Margin" [] := by
  obtain ⟨-, root, hroot, c, hc, hx⟩ := h
  simp only [tabs, List.mem_cons, List.not_mem_nil, or_false] at hroot
  rcases hroot with rfl | rfl <;> obtain rfl := List.mem_singleton.mp hc <;>
    exact eq_of_within_bare hx

/-- The theme is the only owning composite below `themes`. -/
theorem eq_of_ownerBelow_themes {x : Setting} (h : OwnerBelow themes x) : x = bare "Theme" [] := by
  obtain ⟨-, root, hroot, c, hc, hx⟩ := h
  simp only [themes, List.mem_cons, List.not_mem_nil, or_false] at hroot
  rcases hroot with rfl | rfl
  · cases hc
  · obtain rfl := List.mem_singleton.mp hc
    exact eq_of_within_bare hx

/-- The convention is kept where every struct has the name of its owner. -/
theorem followsNames_of_structName {roots : List Setting}
    (hdistinct : (roots.map fun root => root.info.name).Nodup)
    (hroot : ∀ root ∈ roots, root.info.structName = root.info.name)
    (hbelow : ∀ x, OwnerBelow roots x → x.info.structName = x.info.name) :
    FollowsNames roots where
  distinct := hdistinct
  root := hroot
  one x y hx hy hsame := by
    have hname {z : Setting} (hz : z ∈ roots ∨ OwnerBelow roots z) :
        z.info.structName = z.info.name := hz.elim (hroot z) (hbelow z)
    rw [← hname hx, ← hname hy, hsame]

theorem followsNames_tabs : FollowsNames tabs :=
  followsNames_of_structName (by decide) (by simp [tabs, bare, Setting.makeGroup, infoOf])
    fun _ hx => eq_of_ownerBelow_tabs hx ▸ rfl

theorem followsNames_themes : FollowsNames themes :=
  followsNames_of_structName (by decide) (by simp [themes, bare, Setting.makeGroup, infoOf])
    fun _ hx => eq_of_ownerBelow_themes hx ▸ rfl

/-- The margin that both roots of `tabs` contain is defined once. -/
theorem definesOnce_tabs : ∃ h, compile tabs = .ok h ∧ FollowsNames tabs ∧
    (h.structs.map StructDef.name).Nodup := by
  refine ⟨_, rfl, followsNames_tabs, (definesOnce rfl followsNames_tabs).nodup ?_⟩
  intro x hx root hroot
  rw [eq_of_ownerBelow_tabs hx]
  simp only [tabs, List.mem_cons, List.not_mem_nil, or_false] at hroot
  rcases hroot with rfl | rfl <;> decide

/-- The struct of the first root is defined by it and once more for the composite of its name in
the second. -/
theorem not_nodup_themes : ∃ h, compile themes = .ok h ∧ FollowsNames themes ∧
    ¬(h.structs.map StructDef.name).Nodup :=
  ⟨_, rfl, followsNames_themes, by decide⟩

end Header
end SettingsCompiler
