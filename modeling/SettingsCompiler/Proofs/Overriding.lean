import SettingsCompiler.Proofs.Shapes
import SettingsCompiler.Proofs.ByteOrder

/-!
# What a site overrides

The overrides of a site name members of its shape, and of several members with one name they
mean the first (`FirstNamed`). An entry fits if there is such a member and it takes the default
(`Fits`) ; what is wrong with any other entry depends on the members of the shape alone, since
no override renames a member or moves it (`firstNamed_set_iff`).

So the overrides succeed exactly if all entries fit, and then each first member has the default
of its entry and every other member is what it was (`overrideMembers_ok_iff`), in whatever order
the entries come. If some do not fit, the first of them in the order of the names is reported
(`overrideMembers_error_iff`).

Nothing of this reaches another site of the shape : a schema in which a site loses its overrides
expands the shape as before (`expand_bared`), because the site is not inside the shape, which
would otherwise use itself.
-/

namespace SettingsCompiler

open Data

/-! ## The first member of a name -/

/-- `c` is the first member of a name, at position `i`. -/
structure FirstNamed (cs : List Setting) (name : String) (i : Nat) (c : Setting) : Prop where
  get : cs[i]? = some c
  named : c.info.name = name
  first : ∀ {j b}, j < i → cs[j]? = some b → b.info.name ≠ name

section

variable {cs : List Setting} {name : String} {i j : Nat} {b c d : Setting}

/-- A name has one first member. -/
theorem FirstNamed.unique (h : FirstNamed cs name i c) (h' : FirstNamed cs name j d) :
    i = j ∧ c = d := by
  obtain hlt | rfl | hgt := Nat.lt_trichotomy i j
  · exact absurd h.named (h'.first hlt h.get)
  · exact ⟨rfl, Option.some.inj (h.get.symm.trans h'.get)⟩
  · exact absurd h'.named (h.first hgt h'.get)

theorem FirstNamed.head (h : c.info.name = name) : FirstNamed (c :: cs) name 0 c :=
  ⟨rfl, h, fun hj => absurd hj (Nat.not_lt_zero _)⟩

theorem firstNamed_cons_succ_iff :
    FirstNamed (b :: cs) name (i + 1) c ↔ b.info.name ≠ name ∧ FirstNamed cs name i c := by
  constructor
  · intro h
    refine ⟨h.first (Nat.succ_pos i) rfl, h.get, h.named, fun {j _} hj hget => ?_⟩
    have hget' : (b :: cs)[j + 1]? = some _ := hget
    exact h.first (Nat.succ_lt_succ hj) hget'
  · rintro ⟨hb, h⟩
    refine ⟨h.get, h.named, fun {j a} hj hget => ?_⟩
    cases j with
    | zero =>
      obtain rfl := Option.some.inj hget
      exact hb
    | succ j => exact h.first (Nat.lt_of_succ_lt_succ hj) hget

/-- A name has a first member or no member has it. -/
theorem exists_firstNamed_or (cs : List Setting) (name : String) :
    (∃ i c, FirstNamed cs name i c) ∨ ∀ c ∈ cs, c.info.name ≠ name := by
  induction cs with
  | nil => exact .inr fun c hc => absurd hc List.not_mem_nil
  | cons b cs ih =>
    by_cases hb : b.info.name = name
    · exact .inl ⟨0, b, .head hb⟩
    · obtain ⟨i, c, h⟩ | h := ih
      · exact .inl ⟨i + 1, c, firstNamed_cons_succ_iff.mpr ⟨hb, h⟩⟩
      · exact .inr (List.forall_mem_cons.mpr ⟨hb, h⟩)

theorem forall_ne_iff :
    (∀ c ∈ cs, c.info.name ≠ name) ↔ ∀ i c, ¬FirstNamed cs name i c := by
  constructor
  · intro h i c hfirst
    exact h c (List.mem_of_getElem? hfirst.get) hfirst.named
  · intro h
    obtain ⟨i, c, hfirst⟩ | hne := exists_firstNamed_or cs name
    · exact absurd hfirst (h i c)
    · exact hne

/-- A list that has the same members of a name in the same places has the same first one. -/
theorem FirstNamed.of_agree {cs' : List Setting}
    (hagree : ∀ (k : Nat) (a : Setting), a.info.name = name →
      (cs'[k]? = some a ↔ cs[k]? = some a))
    (h : FirstNamed cs name i c) : FirstNamed cs' name i c where
  get := (hagree i c h.named).mpr h.get
  named := h.named
  first {k a} hk ha hname := h.first hk ((hagree k a hname).mp ha) hname

theorem FirstNamed.getElem?_set (h : FirstNamed cs name i c) (d : Setting) :
    (cs.set i d)[i]? = some d :=
  List.getElem?_set_self (List.getElem?_eq_some_iff.mp h.get).1

/-- A member that gets another default keeps its name, so the first member of every other name
is what it was. -/
theorem firstNamed_set_iff {member : String} {v : Value} (hc : FirstNamed cs member i c)
    (hne : name ≠ member) :
    FirstNamed (cs.set i (c.withValue v)) name j b ↔ FirstNamed cs name j b := by
  have hagree : ∀ (k : Nat) (a : Setting), a.info.name = name →
      ((cs.set i (c.withValue v))[k]? = some a ↔ cs[k]? = some a) := by
    intro k a ha
    by_cases hik : i = k
    · subst hik
      rw [hc.getElem?_set, hc.get]
      have hother (d : Setting) (hd : d.info.name = c.info.name) : some d ≠ some a := by
        intro h
        obtain rfl := Option.some.inj h
        exact hne (ha.symm.trans (hd.trans hc.named))
      exact iff_of_false (hother _ rfl) (hother _ rfl)
    · rw [List.getElem?_set_ne hik]
  exact ⟨.of_agree fun k a ha => (hagree k a ha).symm, .of_agree hagree⟩

end

/-! ## Entries that fit and entries that do not -/

/-- There is a member of the name of the entry, and the first one takes its default. -/
def Fits (cs : List Setting) (entry : String × Datum) : Prop :=
  ∃ i c v, FirstNamed cs entry.1 i c ∧ convert c.info.name c.info.kind (some entry.2) = .ok v

/-- What is wrong with an entry of overrides at a field. -/
inductive Misfits (field : String) (cs : List Setting) (entry : String × Datum) :
    SchemaFault → Prop
  | unknown : (∀ c ∈ cs, c.info.name ≠ entry.1) →
      Misfits field cs entry (.unknownOverride field entry.1)
  | mistyped {i : Nat} {c : Setting} {f : Fault} : FirstNamed cs entry.1 i c →
      convert c.info.name c.info.kind (some entry.2) = .error f →
      Misfits field cs entry (.tree f)

section

variable {field member : String} {cs cs' : List Setting} {entry : String × Datum} {d : Datum}
  {entries rest : List (String × Datum)} {i : Nat} {c : Setting} {v : Value} {f : SchemaFault}

/-- An entry fits, or something is wrong with it. -/
theorem fits_or_misfits (field : String) (cs : List Setting) (entry : String × Datum) :
    Fits cs entry ∨ ∃ f, Misfits field cs entry f := by
  obtain ⟨i, c, h⟩ | h := exists_firstNamed_or cs entry.1
  · cases hv : convert c.info.name c.info.kind (some entry.2) with
    | ok v => exact .inl ⟨i, c, v, h, hv⟩
    | error f => exact .inr ⟨.tree f, .mistyped h hv⟩
  · exact .inr ⟨_, .unknown h⟩

theorem Misfits.not_fits (h : Misfits field cs entry f) : ¬Fits cs entry := by
  rintro ⟨i, c, v, hfirst, hv⟩
  cases h with
  | unknown hnone => exact forall_ne_iff.mp hnone i c hfirst
  | mistyped hfirst' hf =>
    obtain ⟨-, rfl⟩ := hfirst.unique hfirst'
    rw [hv] at hf
    cases hf

/-- Only one thing is wrong with an entry. -/
theorem Misfits.unique {f' : SchemaFault} (h : Misfits field cs entry f)
    (h' : Misfits field cs entry f') : f = f' := by
  cases h with
  | unknown hnone =>
    cases h' with
    | unknown => rfl
    | mistyped hfirst => exact absurd hfirst (forall_ne_iff.mp hnone _ _)
  | mistyped hfirst hf =>
    cases h' with
    | unknown hnone => exact absurd hfirst (forall_ne_iff.mp hnone _ _)
    | mistyped hfirst' hf' =>
      obtain ⟨-, rfl⟩ := hfirst.unique hfirst'
      rw [Except.error.inj (hf.symm.trans hf')]

/-! ## One override -/

/-- An override converts its default for the first member of its name and puts it there. -/
theorem overrideMember_of_firstNamed : ∀ {cs : List Setting} {i : Nat},
    FirstNamed cs member i c → overrideMember field member d cs =
      match convert c.info.name c.info.kind (some d) with
      | .error f => .error (.tree f)
      | .ok v => .ok (cs.set i (c.withValue v))
  | [], _, h => by cases h.get
  | b :: cs, 0, h => by
    obtain rfl := Option.some.inj h.get
    rw [overrideMember, if_pos h.named]
    rfl
  | b :: cs, i + 1, h => by
    obtain ⟨hb, h⟩ := firstNamed_cons_succ_iff.mp h
    rw [overrideMember, if_neg hb, overrideMember_of_firstNamed h]
    cases convert c.info.name c.info.kind (some d) <;> rfl

/-- An override of a name that no member has is reported. -/
theorem overrideMember_of_forall_ne : ∀ {cs : List Setting}, (∀ c ∈ cs, c.info.name ≠ member) →
    overrideMember field member d cs = .error (.unknownOverride field member)
  | [], _ => rfl
  | b :: cs, h => by
    obtain ⟨hb, h⟩ := List.forall_mem_cons.mp h
    rw [overrideMember, if_neg hb, overrideMember_of_forall_ne h]

/-- An entry that does not fit is reported. -/
theorem overrideMember_of_misfits (h : Misfits field cs entry f) :
    overrideMember field entry.1 entry.2 cs = .error f := by
  cases h with
  | unknown hnone => exact overrideMember_of_forall_ne hnone
  | mistyped hfirst hf => rw [overrideMember_of_firstNamed hfirst, hf]

/-- Behind one override the others find the same first members. -/
theorem fits_set_iff (hc : FirstNamed cs member i c) (hne : entry.1 ≠ member) :
    Fits (cs.set i (c.withValue v)) entry ↔ Fits cs entry := by
  simp only [Fits, firstNamed_set_iff hc hne]

theorem Misfits.of_iff (hiff : ∀ i c, FirstNamed cs' entry.1 i c ↔ FirstNamed cs entry.1 i c)
    (h : Misfits field cs entry f) : Misfits field cs' entry f := by
  cases h with
  | unknown hnone =>
    exact .unknown (forall_ne_iff.mpr fun i c hc => forall_ne_iff.mp hnone i c ((hiff i c).mp hc))
  | mistyped hfirst hf => exact .mistyped ((hiff _ _).mpr hfirst) hf

theorem misfits_set_iff (hc : FirstNamed cs member i c) (hne : entry.1 ≠ member) :
    Misfits field (cs.set i (c.withValue v)) entry f ↔ Misfits field cs entry f :=
  ⟨.of_iff fun _ _ => (firstNamed_set_iff hc hne).symm, .of_iff fun _ _ => firstNamed_set_iff hc hne⟩

/-! ## All overrides of a site -/

/-- The second list is the first with the default of each entry in the first member of its name,
and nothing else is different. -/
structure Overlays (entries : List (String × Datum)) (cs cs' : List Setting) : Prop where
  replaced : ∀ e ∈ entries, ∃ i c v, FirstNamed cs e.1 i c ∧
    convert c.info.name c.info.kind (some e.2) = .ok v ∧ cs'[i]? = some (c.withValue v)
  kept : ∀ i, (∀ e ∈ entries, ∀ c, ¬FirstNamed cs e.1 i c) → cs'[i]? = cs[i]?

theorem Overlays.fits (h : Overlays entries cs cs') : ∀ e ∈ entries, Fits cs e := by
  intro e he
  obtain ⟨i, c, v, hfirst, hv, -⟩ := h.replaced e he
  exact ⟨i, c, v, hfirst, hv⟩

theorem overlays_nil_iff : Overlays [] cs cs' ↔ cs' = cs := by
  constructor
  · intro h
    exact List.ext_getElem? fun i => h.kept i (by simp)
  · rintro rfl
    exact ⟨by simp, fun _ _ => rfl⟩

theorem Overlays.of_mem_iff (hiff : ∀ e, e ∈ entries ↔ e ∈ rest) (h : Overlays entries cs cs') :
    Overlays rest cs cs' :=
  ⟨fun e he => h.replaced e ((hiff e).mpr he),
    fun i hi => h.kept i fun e he => hi e ((hiff e).mp he)⟩

/-- The order of entries does not matter to what they ask for. -/
theorem overlays_congr (hiff : ∀ e, e ∈ entries ↔ e ∈ rest) :
    Overlays entries cs cs' ↔ Overlays rest cs cs' :=
  ⟨.of_mem_iff hiff, .of_mem_iff fun e => (hiff e).symm⟩

/-- The first override is made, then the others on what it gives. -/
theorem overlays_cons_iff (hc : FirstNamed cs member i c)
    (hv : convert c.info.name c.info.kind (some d) = .ok v) (hother : ∀ e ∈ rest, e.1 ≠ member) :
    Overlays ((member, d) :: rest) cs cs' ↔ Overlays rest (cs.set i (c.withValue v)) cs' := by
  have hfirst {e : String × Datum} (he : e ∈ rest) {j : Nat} {b : Setting} :
      FirstNamed (cs.set i (c.withValue v)) e.1 j b ↔ FirstNamed cs e.1 j b :=
    firstNamed_set_iff hc (hother e he)
  have hset : (cs.set i (c.withValue v))[i]? = some (c.withValue v) := hc.getElem?_set _
  constructor
  · intro h
    obtain ⟨hhead, hrest⟩ := List.forall_mem_cons.mp h.replaced
    refine ⟨fun e he => ?_, fun j hj => ?_⟩
    · obtain ⟨j, b, w, hb, hw, hget⟩ := hrest e he
      exact ⟨j, b, w, (hfirst he).mpr hb, hw, hget⟩
    · by_cases hij : i = j
      · obtain ⟨k, b, w, hb, hw, hget⟩ := hhead
        obtain ⟨rfl, rfl⟩ := hc.unique hb
        obtain rfl := Except.ok.inj (hv.symm.trans hw)
        rw [← hij, hset, hget]
      · rw [List.getElem?_set_ne hij]
        refine h.kept j (List.forall_mem_cons.mpr ⟨fun b hb => ?_, fun e he b hb => ?_⟩)
        · exact hij (hc.unique hb).1
        · exact hj e he b ((hfirst he).mpr hb)
  · intro h
    refine ⟨List.forall_mem_cons.mpr ⟨⟨i, c, v, hc, hv, ?_⟩, fun e he => ?_⟩, fun j hj => ?_⟩
    · rw [h.kept i fun e he b hb => ?_, hset]
      have hname := ((hfirst he).mp hb).named
      obtain rfl := Option.some.inj (hc.get.symm.trans ((hfirst he).mp hb).get)
      exact hother e he (hname.symm.trans hc.named)
    · obtain ⟨j, b, w, hb, hw, hget⟩ := h.replaced e he
      exact ⟨j, b, w, (hfirst he).mp hb, hw, hget⟩
    · obtain ⟨hhead, hrest⟩ := List.forall_mem_cons.mp hj
      have hij : i ≠ j := by
        rintro rfl
        exact hhead c hc
      rw [h.kept j fun e he b hb => hrest e he b ((hfirst he).mp hb), List.getElem?_set_ne hij]

theorem overrideMembers_cons (hc : FirstNamed cs member i c)
    (hv : convert c.info.name c.info.kind (some d) = .ok v) :
    overrideMembers field ((member, d) :: rest) cs =
      overrideMembers field rest (cs.set i (c.withValue v)) := by
  rw [overrideMembers, overrideMember_of_firstNamed hc, hv]

theorem overrideMembers_cons_of_misfits (h : Misfits field cs entry f) :
    overrideMembers field (entry :: rest) cs = .error f := by
  rw [overrideMembers, overrideMember_of_misfits h]

/-- The overrides of a site succeed with exactly the members that they ask for. -/
theorem overrideMembers_ok_iff : ∀ {entries : List (String × Datum)} {cs : List Setting},
    entries.Pairwise (fun a b => a.1 ≠ b.1) →
      (overrideMembers field entries cs = .ok cs' ↔ Overlays entries cs cs')
  | [], cs, _ => by
    rw [overrideMembers, overlays_nil_iff, Except.ok.injEq, eq_comm]
  | (member, d) :: rest, cs, hpair => by
    obtain ⟨hother, hpair⟩ := List.pairwise_cons.mp hpair
    obtain ⟨i, c, v, hc, hv⟩ | ⟨f, hf⟩ := fits_or_misfits field cs (member, d)
    · rw [overrideMembers_cons hc hv, overrideMembers_ok_iff hpair,
        overlays_cons_iff hc hv fun e he => (hother e he).symm]
    · rw [overrideMembers_cons_of_misfits hf]
      refine iff_of_false (fun h => by cases h) fun h => ?_
      exact absurd (h.fits _ List.mem_cons_self) hf.not_fits

/-- The overrides of a site fail with the first entry that does not fit. -/
theorem overrideMembers_error_iff : ∀ {entries : List (String × Datum)} {cs : List Setting},
    entries.Pairwise (fun a b => a.1 < b.1) → (overrideMembers field entries cs = .error f ↔
      ∃ e ∈ entries, Misfits field cs e f ∧ ∀ b ∈ entries, b.1 < e.1 → Fits cs b)
  | [], cs, _ => by simp [overrideMembers]
  | (member, d) :: rest, cs, hsorted => by
    obtain ⟨hleast, hsorted⟩ := List.pairwise_cons.mp hsorted
    have hne {e : String × Datum} (he : e ∈ rest) : e.1 ≠ member :=
      fun h => String.lt_irrefl member (h ▸ hleast e he)
    obtain ⟨i, c, v, hc, hv⟩ | ⟨f', hf'⟩ := fits_or_misfits field cs (member, d)
    · rw [overrideMembers_cons hc hv, overrideMembers_error_iff hsorted]
      constructor
      · rintro ⟨e, he, hmis, hbefore⟩
        refine ⟨e, List.mem_cons_of_mem _ he, (misfits_set_iff hc (hne he)).mp hmis, ?_⟩
        refine List.forall_mem_cons.mpr ⟨fun _ => ⟨i, c, v, hc, hv⟩, fun b hb hlt => ?_⟩
        exact (fits_set_iff hc (hne hb)).mp (hbefore b hb hlt)
      · rintro ⟨e, he, hmis, hbefore⟩
        obtain rfl | he := List.mem_cons.mp he
        · exact absurd ⟨i, c, v, hc, hv⟩ hmis.not_fits
        · refine ⟨e, he, (misfits_set_iff hc (hne he)).mpr hmis, fun b hb hlt => ?_⟩
          exact (fits_set_iff hc (hne hb)).mpr (hbefore b (List.mem_cons_of_mem _ hb) hlt)
    · rw [overrideMembers_cons_of_misfits hf']
      constructor
      · intro h
        obtain rfl := Except.error.inj h
        refine ⟨_, List.mem_cons_self, hf', List.forall_mem_cons.mpr ⟨fun hlt => ?_, ?_⟩⟩
        · exact absurd hlt (String.lt_irrefl member)
        · exact fun b hb hlt => absurd (String.lt_trans (hleast b hb) hlt) (String.lt_irrefl member)
      · rintro ⟨e, he, hmis, hbefore⟩
        obtain rfl | he := List.mem_cons.mp he
        · rw [hf'.unique hmis]
        · exact absurd (hbefore _ List.mem_cons_self (hleast e he)) hf'.not_fits

/-- There are members that all entries ask for exactly if each entry fits. -/
theorem exists_overlays_iff (field : String) (o : Overrides) :
    (∃ cs', Overlays o.entries cs cs') ↔ ∀ e ∈ o.entries, Fits cs e := by
  constructor
  · rintro ⟨cs', h⟩
    exact h.fits
  · intro hfits
    cases h : overrideMembers field o.entries cs with
    | ok cs' => exact ⟨cs', (overrideMembers_ok_iff o.pairwise_ne).mp h⟩
    | error f =>
      obtain ⟨e, he, hmis, -⟩ := (overrideMembers_error_iff o.sorted).mp h
      exact absurd (hfits e he) hmis.not_fits

end

/-! ## Taking the overrides away from a site -/

namespace Attributes

/-- The attributes of a site that overrides nothing. -/
def bare (a : Attributes) : Attributes :=
  { a with overrides := .empty }

end Attributes

namespace Definition

theorem resolve_plain {expand : Expansion} {a : Attributes} {kind : Kind} {x : String}
    (hkind : Kind.ofTag? a.type = some kind) (hshape : a.shape = some x) :
    (plain a).resolve expand = settingOf a kind (expand a x) := by
  rw [resolve_eq, attributes, hkind, inside, hshape]

/-- A composite without a default of its own is put around the settings inside it. -/
theorem settingOf_of_isComposite {a : Attributes} {kind : Kind}
    (hkind : kind.isComposite = true) (hgiven : a.given = none)
    (inside : Except SchemaFault (List Setting)) : settingOf a kind inside =
      inside.map (.group (a.dressInfo (Setting.infoOf a.name kind a.comment))) := by
  unfold settingOf
  rw [if_pos hkind, hgiven]
  cases inside with
  | error e => rfl
  | ok cs => exact congrArg Except.ok (a.dress_group _ cs)

/-- The second list is the first, but the site of `a`, which stands in the list or in that of a
composite in it, overrides nothing. -/
inductive Bared (a : Attributes) : List Definition → List Definition → Prop
  | here {before after : List Definition} :
      Bared a (before ++ plain a :: after) (before ++ plain a.bare :: after)
  | inside {before after fields fields' : List Definition} {b : Attributes} : b.IsComposite →
      Bared a fields fields' →
      Bared a (before ++ inline b fields :: after) (before ++ inline b fields' :: after)

/-- A list with the site of a shape in it refers to the shape. -/
theorem Bared.exists_refers {a : Attributes} {ds ds' : List Definition} {x : String}
    (h : Bared a ds ds') (hcomp : a.IsComposite) (hgiven : a.given = none)
    (hshape : a.shape = some x) : ∃ d ∈ ds, d.Refers x := by
  induction h with
  | here => exact ⟨plain a, by simp, .shape hcomp hgiven hshape⟩
  | inside hb _ ih =>
    obtain ⟨d, hd, hrefers⟩ := ih
    exact ⟨_, List.mem_append_right _ List.mem_cons_self, .field hb hd hrefers⟩

end Definition

namespace Schema

/-- The second schema is the first, but the site of `a`, under a root or in a shape, overrides
nothing. -/
inductive Bared (a : Attributes) : Schema → Schema → Prop
  | root {shapes : List (String × List Definition)} {roots roots' : List Definition} :
      Definition.Bared a roots roots' → Bared a ⟨shapes, roots⟩ ⟨shapes, roots'⟩
  | shape {before after : List (String × List Definition)} {name : String}
      {defs defs' roots : List Definition} : Definition.Bared a defs defs' →
      Bared a ⟨before ++ (name, defs) :: after, roots⟩ ⟨before ++ (name, defs') :: after, roots⟩

section

variable {s s' : Schema} {opened : List String} {a : Attributes} {x : String} {base : Setting}

/-- The shape of a site expands alike wherever the site may not be inside it. -/
theorem expand_bared (h : Bared a s s') (hcomp : a.IsComposite) (hgiven : a.given = none)
    (hshape : a.shape = some x) (hacyclic : ¬Reaches s.shapes x x) (opened : List String)
    (b : Attributes) : expand s'.shapes opened b x = expand s.shapes opened b x := by
  refine expand_congr opened b x fun y hxy => ?_
  cases h with
  | root => rfl
  | @shape before after name defs defs' roots hdefs =>
    rw [List.lookup_append, List.lookup_append, List.lookup_cons, List.lookup_cons]
    by_cases hy : y = name
    · subst hy
      cases hbefore : before.lookup y with
      | some ds => rfl
      | none =>
        -- The shape with the site in it is inside the shape that the site uses.
        have huses : Uses (before ++ (y, defs) :: after) y x :=
          ⟨defs, by simp [List.lookup_append, hbefore], hdefs.exists_refers hcomp hgiven hshape⟩
        exact absurd (Relation.TransGen.tail' hxy huses) hacyclic
    · have hne : (y == name) = false := by simpa using hy
      rw [hne]

/-- What a site resolves to follows from what it resolves to without overrides. -/
theorem resolve_of_bare (h : (Definition.plain a.bare).resolve (expand s.shapes opened) = .ok base)
    (hcomp : a.IsComposite) (hshape : a.shape = some x) :
    base = .group base.info base.children ∧ a.given = none ∧ ¬Reaches s.shapes x x ∧
      (Definition.plain a).resolve (expand s.shapes opened) =
        (overrideMembers a.name a.overrides.entries base.children).map (.group base.info) := by
  obtain ⟨kind, hkind, hcomposite⟩ := hcomp
  rw [Definition.resolve_plain (a := a.bare) hkind hshape] at h
  rw [Definition.resolve_plain hkind hshape]
  cases Definition.settingOf_ok h with
  | comment hcom => simp [hcom, Kind.isComposite] at hcomposite
  | plain hplain => simp [hplain] at hcomposite
  | @composite ss _ hgiven hexpand =>
    obtain ⟨defs, ss', hdefs, hopen, hss, hbare⟩ := expand_ok hexpand
    obtain rfl : ss' = ss := Except.ok.inj hbare
    rw [Setting.makeGroup, Attributes.dress_group, expand_of_not_mem hdefs hopen, hss]
    exact ⟨rfl, hgiven, not_reaches_of_expand_ok hexpand,
      Definition.settingOf_of_isComposite hcomposite hgiven _⟩

/-- Away from the site, what uses its shape resolves as before. -/
theorem resolve_bared (h : Bared a s s') (hcomp : a.IsComposite) (hgiven : a.given = none)
    (hshape : a.shape = some x) (hacyclic : ¬Reaches s.shapes x x) {d : Definition}
    (hd : d.attributes.shape = some x) (opened : List String) :
    d.resolve (expand s'.shapes opened) = d.resolve (expand s.shapes opened) := by
  have hinside : d.inside (expand s'.shapes opened) = d.inside (expand s.shapes opened) := by
    cases d with
    | plain b =>
      rw [Definition.attributes] at hd
      rw [Definition.inside, Definition.inside, hd]
      exact expand_bared h hcomp hgiven hshape hacyclic opened b
    | inline b fields =>
      rw [Definition.attributes] at hd
      rw [Definition.inside, Definition.inside, hd]
  rw [Definition.resolve_eq, Definition.resolve_eq, hinside]

/-- What the overrides of a site of a shape do, where the site without them resolves to `base`.
They succeed exactly if each of them fits, and then nothing but the defaults of the first
members of their names is different from `base`, whatever order they are made in ; else the
least of those that do not fit, by the bytes of the names, is reported. What else uses the shape
resolves as in a schema where the site overrides nothing. -/
structure OverridesLocally (s : Schema) (opened : List String) (a : Attributes)
    (base : Setting) : Prop where
  composite : base = .group base.info base.children
  succeeds : (∃ t, (Definition.plain a).resolve (expand s.shapes opened) = .ok t) ↔
    ∀ e ∈ a.overrides.entries, Fits base.children e
  overlaid : ∀ t, (Definition.plain a).resolve (expand s.shapes opened) = .ok t ↔
    ∃ cs, Overlays a.overrides.entries base.children cs ∧ t = .group base.info cs
  unordered : ∀ entries, entries.Perm a.overrides.entries → ∀ cs,
    overrideMembers a.name entries base.children = .ok cs ↔
      Overlays a.overrides.entries base.children cs
  fails : ∀ f, (Definition.plain a).resolve (expand s.shapes opened) = .error f ↔
    ∃ e ∈ a.overrides.entries, Misfits a.name base.children e f ∧
      ∀ b ∈ a.overrides.entries, Text.utf8 b.1 < Text.utf8 e.1 → Fits base.children b
  elsewhere : ∀ s', Bared a s s' → ∀ d : Definition, d.attributes.shape = a.shape →
    ∀ opened, d.resolve (expand s'.shapes opened) = d.resolve (expand s.shapes opened)

/-- Whatever shapes are open around a site, its overrides do what each entry says to one member,
and nothing anywhere else. -/
theorem overridesLocally
    (h : (Definition.plain a.bare).resolve (expand s.shapes opened) = .ok base)
    (hcomp : a.IsComposite) (hshape : a.shape = some x) : OverridesLocally s opened a base := by
  obtain ⟨hbase, hgiven, hacyclic, hsite⟩ := resolve_of_bare h hcomp hshape
  have hoverlays {cs : List Setting} :
      overrideMembers a.name a.overrides.entries base.children = .ok cs ↔
        Overlays a.overrides.entries base.children cs :=
    overrideMembers_ok_iff a.overrides.pairwise_ne
  have hoverlaid (t : Setting) : (Definition.plain a).resolve (expand s.shapes opened) = .ok t ↔
      ∃ cs, Overlays a.overrides.entries base.children cs ∧ t = .group base.info cs := by
    rw [hsite]
    cases hover : overrideMembers a.name a.overrides.entries base.children with
    | error f => simp [Except.map, ← hoverlays, hover]
    | ok cs => simp [Except.map, ← hoverlays, hover, eq_comm]
  refine ⟨hbase, ?_, hoverlaid, fun entries hperm cs => ?_, fun f => ?_, fun s' hs d hd => ?_⟩
  · rw [← exists_overlays_iff a.name]
    constructor
    · rintro ⟨t, ht⟩
      obtain ⟨cs, hcs, -⟩ := (hoverlaid t).mp ht
      exact ⟨cs, hcs⟩
    · rintro ⟨cs, hcs⟩
      exact ⟨_, (hoverlaid _).mpr ⟨cs, hcs, rfl⟩⟩
  · have hpair := (hperm.pairwise_iff fun h => Ne.symm h).mpr a.overrides.pairwise_ne
    rw [overrideMembers_ok_iff hpair, overlays_congr fun e => hperm.mem_iff]
  · have herror : (Definition.plain a).resolve (expand s.shapes opened) = .error f ↔
        overrideMembers a.name a.overrides.entries base.children = .error f := by
      rw [hsite]
      cases overrideMembers a.name a.overrides.entries base.children <;> simp [Except.map]
    simp only [herror, overrideMembers_error_iff a.overrides.sorted, Text.lt_iff_utf8_lt]
  · exact resolve_bared hs hcomp hgiven hshape hacyclic (hd.trans hshape)

end

/-- A site of the shape `Margin` that gives its member `Top` another default. -/
def headMargin : Attributes :=
  { Definition.blank with
    name := "Head", type := "Compact", shape := some "Margin"
    overrides := .ofEntries [("Top", .int 2)] }

/-- Two sites of the shape `Margin`, which has two members `Top`. -/
def sheet : Schema where
  shapes := [("Margin", [.plain { Definition.blank with name := "Top", type := "Int" },
    .plain { Definition.blank with name := "Left", type := "Int" },
    .plain { Definition.blank with name := "Top", type := "Int" }])]
  roots := [.inline { Definition.blank with name := "Prefs", type := "Struct" }
    [.plain headMargin, site "Foot" "Margin"]]

/-- Of the two members `Top` in `sheet` the site overrides the first. -/
theorem overridesLocally_sheet :
    ∃ base, (Definition.plain headMargin.bare).resolve (expand sheet.shapes []) = .ok base ∧
      headMargin.IsComposite ∧ headMargin.shape = some "Margin" ∧
      OverridesLocally sheet [] headMargin base := by
  have h : (Definition.plain headMargin.bare).resolve (expand sheet.shapes []) =
      .ok (.makeGroup "Head" .compact [.make "Top" .int .null "", .make "Left" .int .null "",
        .make "Top" .int .null ""] "") := by cbv
  have hcomp : headMargin.IsComposite := ⟨.compact, rfl, rfl⟩
  exact ⟨_, h, hcomp, rfl, overridesLocally h hcomp rfl⟩

/-- Of a default of another type and a member that the shape lacks, the one is reported whose name
comes first. -/
example : (Definition.plain { headMargin with
    overrides := .ofEntries [("Top", .bool true), ("Bottom", .int 1)] }).resolve
      (expand sheet.shapes []) = .error (.unknownOverride "Head" "Bottom") := by cbv

end Schema

end SettingsCompiler
