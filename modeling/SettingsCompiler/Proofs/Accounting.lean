import SettingsCompiler.Proofs.Uniqueness
import Mathlib.Data.Finset.Card

/-!
# Names registered by a session

The structs of several roots can be asked for with one registry, one root after another, and what
a failed root registered stays registered (`registryAfter`). A name is registered on the way into
an owning composite, and only if it is not registered yet. So no run registers a name twice, where
it fails as little as where it succeeds (`keepsDistinct_define`), and neither does a session.

A run that succeeds has made the definition of every composite that it went into. The names it
registered are thus as many as its definitions below the root, each is that of an owning composite
whose definition was made, and none was registered before (`accounts_of_structDefs`). A session
says so of the next root that compiles, whatever came of the roots before (`registersOnce`).
-/

namespace SettingsCompiler

namespace Registry

/-- No name is registered twice. -/
def Distinct (r : Registry) : Prop :=
  r.names.Nodup

/-- The names that are registered in `r'` and were not in `r`. -/
def gained (r r' : Registry) : Finset String :=
  r'.names.toFinset \ r.names.toFinset

/-- Names are distinct if none is counted more than once. -/
theorem distinct_iff {r : Registry} : r.Distinct ↔ ∀ n, r.count n ≤ 1 :=
  List.nodup_iff_count_le_one

theorem distinct_empty : empty.Distinct := List.nodup_nil

/-- A name that is free can be registered. -/
theorem Distinct.bump {r : Registry} {name : String} (h : r.Distinct)
    (hfree : r.contains name = false) : (r.bump name).Distinct := by
  have hnot : name ∉ r.names := by simpa [contains] using hfree
  exact List.nodup_cons.mpr ⟨hnot, h⟩

theorem mem_gained_iff {r r' : Registry} {n : String} :
    n ∈ gained r r' ↔ r'.contains n = true ∧ r.contains n = false := by
  simp [gained, contains]

end Registry

namespace Registering

variable {ε α β : Type}

/-- The computation registers no name twice, also where it fails. -/
def KeepsDistinct (m : Registering ε α) : Prop :=
  ∀ r, r.Distinct → (m.runFrom r).2.Distinct

theorem keepsDistinct_pure (a : α) : KeepsDistinct (pure a : Registering ε α) := fun _ h => h

theorem keepsDistinct_throw (e : ε) : KeepsDistinct (throw e : Registering ε α) := fun _ h => h

theorem keepsDistinct_ofExcept (outcome : Except ε α) : KeepsDistinct (ofExcept outcome) := by
  intro r h
  rwa [runFrom_ofExcept]

/-- One computation behind another keeps names distinct if both do, whatever the first one
gives. -/
theorem KeepsDistinct.bind {m : Registering ε α} {next : α → Registering ε β}
    (h : KeepsDistinct m) (hnext : ∀ a, KeepsDistinct (next a)) : KeepsDistinct (m >>= next) := by
  intro r hr
  have hm := h r hr
  rw [runFrom_bind]
  cases hrun : m.runFrom r with
  | mk outcome r₁ =>
    rw [hrun] at hm
    cases outcome with
    | error e => exact hm
    | ok a => exact hnext a r₁ hm

/-- A name may be registered where it is free. -/
theorem keepsDistinct_register {name : String} {needed : Bool} {new old : Registering ε β}
    (hnew : KeepsDistinct new) (hold : KeepsDistinct old) :
    KeepsDistinct (isRegistered name >>= fun known =>
      if needed && !known then register name >>= fun _ => new else old) := by
  intro r hr
  rw [runFrom_bind, runFrom_isRegistered]
  dsimp only
  split
  · next hfree =>
    rw [Bool.and_eq_true, Bool.not_eq_true'] at hfree
    rw [runFrom_bind, runFrom_register]
    exact hnew _ (hr.bump hfree.2)
  · exact hold r hr

end Registering

namespace Setting

open Header Registering

/-! ## One run -/

mutual

/-- Defining a setting keeps names distinct : a name is registered only behind the test that it
is free. -/
theorem keepsDistinct_define : ∀ s : Setting, KeepsDistinct (define s)
  | leaf info value => by
    rw [define]
    exact keepsDistinct_throw _
  | group info cs => by
    rw [define]
    refine (keepsDistinct_ofExcept _).bind fun _ => ?_
    exact (keepsDistinct_defineAll cs).bind fun _ => keepsDistinct_pure _

/-- Defining a list of settings keeps names distinct. -/
theorem keepsDistinct_defineAll : ∀ cs : List Setting, KeepsDistinct (defineAll cs)
  | [] => by
    rw [defineAll]
    exact keepsDistinct_pure _
  | c :: cs => by
    rw [defineAll]
    have hrest (own : List StructDef) : KeepsDistinct (do return own ++ (← defineAll cs) :
        Registering Fault (List StructDef)) :=
      (keepsDistinct_defineAll cs).bind fun _ => keepsDistinct_pure _
    split
    · refine keepsDistinct_register ((keepsDistinct_define c).bind hrest) ?_
      exact (keepsDistinct_ofExcept _).bind fun _ => (keepsDistinct_pure _).bind hrest
    · exact (keepsDistinct_pure _).bind hrest

end

/-- Asking for the structs of a root keeps names distinct, also where it fails. -/
theorem keepsDistinct_structDefs (root : Setting) : KeepsDistinct root.structDefs := by
  rw [structDefs]
  split
  · exact keepsDistinct_define root
  · exact keepsDistinct_throw _

/-! ## One run that succeeds -/

/-- The names gained are those of the definitions below the root. -/
theorem Enrols.gained_eq {r r' : Registry} {l : List Origin} (h : Enrols r l r') :
    r.gained r' = (l.map Origin.name).toFinset := by
  ext n
  rw [Registry.mem_gained_iff, h.contains_iff, List.mem_toFinset, List.mem_map]
  constructor
  · rintro ⟨hr | ho, hfree⟩
    · rw [hr] at hfree
      cases hfree
    · exact ho
  · rintro ⟨o, ho, rfl⟩
    exact ⟨.inr ⟨o, ho, rfl⟩, h.fresh o ho⟩

/-- The origins inside a root are owning composites below it. -/
theorem ownerBelow_of_mem_originsAll {root : Setting} {r : Registry} {o : Origin}
    (ho : o ∈ (originsAll [] r root.children).1) : OwnerBelow [root] o.setting := by
  have hwithin := within_of_mem_originsAll root.children ho
  have howns := (enrols_originsAll root.children).owns o ho
  exact ⟨howns.2.1, root, List.mem_singleton_self root, hwithin⟩

/-- What a call for the structs of a root does if it succeeds, with `ds` as its definitions, and
takes the registry from `r` to `r'`. There is one definition for the root and one for each name
gained. A name gained is that of an owning composite below the root whose definition is made. And
no composite below the root that a definition is made from has a name that is in `r`. -/
structure Accounts (root : Setting) (r r' : Registry) (ds : List StructDef) : Prop where
  length : ds.length = 1 + (r.gained r').card
  owner : ∀ n ∈ r.gained r', ∃ x, OwnerBelow [root] x ∧ x.info.name = n ∧
    .of x.info x.children ∈ ds
  definitions : ds = (origins [] r root).1.map Origin.definition
  fresh : ∀ o ∈ (origins [] r root).1, o.isNested = true →
    OwnerBelow [root] o.setting ∧ r.contains o.name = false

/-- A call that succeeds accounts for each name that it registered. -/
theorem accounts_of_structDefs {root : Setting} {r r' : Registry} {ds : List StructDef}
    (h : root.structDefs.runFrom r = (.ok ds, r')) : Accounts root r r' ds := by
  obtain ⟨-, hds, hr'⟩ := structDefs_ok h
  have henrols : Enrols r (originsAll [] r root.children).1 (originsAll [] r root.children).2 :=
    enrols_originsAll root.children
  have hgained : r.gained r' = ((originsAll [] r root.children).1.map Origin.name).toFinset := by
    rw [hr', origins_root]
    exact henrols.gained_eq
  refine ⟨?_, fun n hn => ?_, hds, fun o ho hnested => ?_⟩
  · rw [hds, hgained, List.toFinset_card_of_nodup henrols.nodup, origins_root]
    simp [Nat.add_comm]
  · rw [hgained, List.mem_toFinset] at hn
    obtain ⟨o, ho, rfl⟩ := List.mem_map.mp hn
    refine ⟨o.setting, ownerBelow_of_mem_originsAll ho, rfl, ?_⟩
    rw [hds, origins_root]
    exact List.mem_map_of_mem (List.mem_append_left _ ho)
  · have hin : o ∈ (originsAll [] r root.children).1 := by
      rw [← filter_isNested_origins]
      exact List.mem_filter.mpr ⟨ho, hnested⟩
    exact ⟨ownerBelow_of_mem_originsAll hin, henrols.fresh o hin⟩

/-! ## Sessions -/

/-- The registry after the structs of roots were asked for, one root after another, from an empty
registry, whatever the outcomes were. -/
def registryAfter (roots : List Setting) : Registry :=
  roots.foldl (fun r root => (root.structDefs.runFrom r).2) .empty

theorem registryAfter_concat (roots : List Setting) (root : Setting) :
    registryAfter (roots ++ [root]) = (root.structDefs.runFrom (registryAfter roots)).2 :=
  List.foldl_concat _ _ _ _

/-- A session keeps names distinct, by induction on its roots. -/
theorem distinct_registryAfter (roots : List Setting) : (registryAfter roots).Distinct := by
  induction roots using List.reverseRecOn with
  | nil => exact Registry.distinct_empty
  | append_singleton roots root ih =>
    rw [registryAfter_concat]
    exact keepsDistinct_structDefs root _ ih

/-- After any session no name is registered more than once, and the next root that compiles has
its names accounted for. -/
structure RegistersOnce (roots : List Setting) : Prop where
  count_le_one : ∀ n, (registryAfter roots).count n ≤ 1
  accounts : ∀ root ds, (root.structDefs.runFrom (registryAfter roots)).1 = .ok ds →
    Accounts root (registryAfter roots) (registryAfter (roots ++ [root])) ds

/-- Sessions of any roots, failed ones among them, register a name at most once and account for
the next root that compiles. -/
theorem registersOnce (roots : List Setting) : RegistersOnce roots where
  count_le_one := Registry.distinct_iff.mp (distinct_registryAfter roots)
  accounts root ds h := by
    rw [registryAfter_concat]
    exact accounts_of_structDefs (Prod.ext h rfl)

/-- A root that fails behind its margin, at a composite without settings. -/
def torn : Setting :=
  bare "Torn" [bare "Margin" [], .make "Pane" .struct .null ""]

/-- A root with a margin, an inset, and a margin inside the inset. -/
def framed : Setting :=
  bare "Framed" [bare "Margin" [], bare "Inset" [bare "Margin" [.make "Top" .int .null ""]]]

/-- The margin that a failed root registered is not defined again for the next root, which gains
its inset only. -/
theorem registersOnce_torn :
    (torn.structDefs.runFrom .empty).1 = .error (.danglingStruct "Pane" "Pane") ∧
    (registryAfter [torn]).names = ["Pane", "Margin"] ∧
    ∃ ds, (framed.structDefs.runFrom (registryAfter [torn])).1 = .ok ds ∧
      ds.map StructDef.name = ["Inset", "Framed"] ∧
      Accounts framed (registryAfter [torn]) (registryAfter [torn, framed]) ds :=
  ⟨rfl, rfl, _, rfl, rfl, (registersOnce [torn]).accounts framed _ rfl⟩

end Setting
end SettingsCompiler
