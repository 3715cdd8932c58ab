import SettingsCompiler.Schema.Resolve
import SettingsCompiler.Proofs.Site
import Mathlib.Data.List.Forall2

/-!
# Resolution, taken apart

A definition is resolved in three steps : its tag is read, the settings inside it are made
(`Definition.inside`), and a setting is put around them (`Definition.settingOf`). A list is
resolved one definition after another (`resolveAll_ok_iff`). All this holds for any way to
expand a shape, and shapes are expanded for composites alone (`settingOf_congr`).

The overrides of a site replace the default of one member each, the first of its name, and
do not get in each other's way (`changes_of_overrideMembers`).
-/

namespace SettingsCompiler

open Data

namespace Attributes

variable (a : Attributes)

/-- The tag is that of a composite kind. -/
def IsComposite : Prop :=
  ∃ kind, Kind.ofTag? a.type = some kind ∧ kind.isComposite = true

/-- The attributes of a setting with those that a definition gives. -/
def dressInfo (info : Info) : Info :=
  (a.dress (.leaf info .null)).info

@[simp] theorem dress_leaf (info : Info) (v : Value) :
    a.dress (.leaf info v) = .leaf (a.dressInfo info) v := by
  unfold dressInfo dress withSome
  cases a.structName <;> cases a.doc <;> cases a.version <;> cases a.internal <;>
    cases a.expert <;> rfl

@[simp] theorem dress_group (info : Info) (cs : List Setting) :
    a.dress (.group info cs) = .group (a.dressInfo info) cs := by
  unfold dressInfo dress withSome
  cases a.structName <;> cases a.doc <;> cases a.version <;> cases a.internal <;>
    cases a.expert <;> rfl

@[simp] theorem dressInfo_name (info : Info) : (a.dressInfo info).name = info.name := by
  unfold dressInfo dress withSome
  cases a.structName <;> cases a.doc <;> cases a.version <;> cases a.internal <;>
    cases a.expert <;> rfl

@[simp] theorem dressInfo_kind (info : Info) : (a.dressInfo info).kind = info.kind := by
  unfold dressInfo dress withSome
  cases a.structName <;> cases a.doc <;> cases a.version <;> cases a.internal <;>
    cases a.expert <;> rfl

end Attributes

namespace Definition

/-- How the shape of a site is expanded. -/
abbrev Expansion := Attributes → String → Except SchemaFault (List Setting)

variable {expand expand' : Expansion}

/-- The settings inside a definition : those of its list, or those of its shape. -/
def inside (expand : Expansion) : Definition → Except SchemaFault (List Setting)
  | plain a => match a.shape with
    | some shape => expand a shape
    | none => .error (.tree (.danglingStruct a.name (a.structName.getD a.name)))
  | inline a fields => match a.shape with
    | some _ => .error (.ambiguousFields a.name)
    | none => resolveAll expand fields

/-- A definition is resolved in three steps : tag, settings inside, and the setting around
them. -/
theorem resolve_eq (d : Definition) : d.resolve expand =
    match Kind.ofTag? d.attributes.type with
    | none => .error (.tree (.unknownType d.attributes.name d.attributes.type))
    | some kind => settingOf d.attributes kind (d.inside expand) := by
  cases d <;> rfl

/-- A definition that resolves has a known tag. -/
theorem resolve_ok {d : Definition} {s : Setting} (h : d.resolve expand = .ok s) :
    ∃ kind, Kind.ofTag? d.attributes.type = some kind ∧
      settingOf d.attributes kind (d.inside expand) = .ok s := by
  rw [resolve_eq] at h
  split at h
  · cases h
  · next kind hkind => exact ⟨kind, hkind, h⟩

/-- What the setting of a definition is : a composite has the settings inside, with none of
the definition's own default, and any other kind has a default that fits it. -/
inductive Makes (a : Attributes) (kind : Kind) (inside : Except SchemaFault (List Setting)) :
    Setting → Prop
  | composite {cs : List Setting} : kind.isComposite = true → a.given = none → inside = .ok cs →
      Makes a kind inside (a.dress (.makeGroup a.name kind cs a.comment))
  | comment : kind = .comment → Makes a kind inside (a.dress (.make a.name kind .null a.comment))
  | plain {v : Value} : kind.isComposite = false → kind ≠ .comment →
      convert a.name kind a.given = .ok v →
      Makes a kind inside (a.dress (.make a.name kind v a.comment))

/-- What comes of a definition is the setting that it makes. -/
theorem settingOf_ok {a : Attributes} {kind : Kind} {inside : Except SchemaFault (List Setting)}
    {s : Setting} (h : settingOf a kind inside = .ok s) : Makes a kind inside s := by
  unfold settingOf at h
  split at h
  · next hcomp =>
    split at h
    · cases h
    · next hgiven =>
      split at h
      · cases h
      · obtain rfl := Except.ok.inj h
        exact .composite hcomp (by simpa using hgiven) rfl
  · next hcomp =>
    split at h
    · next hcom =>
      obtain rfl := Except.ok.inj h
      exact .comment hcom
    · next hcom =>
      split at h
      · cases h
      · next hv =>
        obtain rfl := Except.ok.inj h
        exact .plain (by simpa using hcomp) hcom hv

/-- A definition gives its setting the name and the kind. -/
theorem info_of_resolve {d : Definition} {s : Setting} (h : d.resolve expand = .ok s) :
    s.info.name = d.attributes.name ∧ Kind.ofTag? d.attributes.type = some s.info.kind := by
  obtain ⟨kind, hkind, hset⟩ := resolve_ok h
  rw [hkind]
  cases settingOf_ok hset <;> simp [Setting.makeGroup, Setting.make, Setting.infoOf]

theorem isComposite_iff_of_resolve {d : Definition} {s : Setting}
    (h : d.resolve expand = .ok s) :
    d.attributes.IsComposite ↔ s.info.kind.isComposite = true := by
  obtain ⟨-, hkind⟩ := info_of_resolve h
  rw [Attributes.IsComposite, hkind]
  simp

/-- A composite that resolves has the settings inside. -/
theorem inside_of_resolve_ok {d : Definition} {s : Setting} (h : d.resolve expand = .ok s)
    (hd : d.attributes.IsComposite) : d.inside expand = .ok s.children := by
  rw [isComposite_iff_of_resolve h] at hd
  obtain ⟨kind, -, hset⟩ := resolve_ok h
  cases settingOf_ok hset with
  | composite _ _ hcs => simpa [Setting.makeGroup, Setting.children] using hcs
  | comment hcom => simp [Setting.make, Setting.infoOf, hcom, Kind.isComposite] at hd
  | plain hplain => simp [Setting.make, Setting.infoOf, hplain] at hd

/-- Only a composite without a default of its own has anything to do with the settings
inside. -/
theorem settingOf_congr {a : Attributes} {kind : Kind}
    {inside inside' : Except SchemaFault (List Setting)}
    (h : kind.isComposite = true → a.given = none → inside = inside') :
    settingOf a kind inside = settingOf a kind inside' := by
  by_cases hcomp : kind.isComposite = true
  · cases hgiven : a.given with
    | none => rw [h hcomp hgiven]
    | some d => simp [settingOf, hcomp, hgiven]
  · simp [settingOf, hcomp]

/-- A fault that is not one of the tree comes from the settings inside a composite. -/
theorem settingOf_error {a : Attributes} {kind : Kind}
    {inside : Except SchemaFault (List Setting)} {e : SchemaFault} (htree : ∀ f, e ≠ .tree f)
    (h : settingOf a kind inside = .error e) :
    kind.isComposite = true ∧ a.given = none ∧ inside = .error e := by
  unfold settingOf at h
  split at h
  · next hcomp =>
    split at h
    · cases h
      exact absurd rfl (htree _)
    · next hgiven =>
      split at h
      · cases h
        exact ⟨hcomp, by simpa using hgiven, rfl⟩
      · cases h
  · split at h
    · cases h
    · split at h
      · cases h
        exact absurd rfl (htree _)
      · cases h

/-- A fault that is not one of the tree comes from inside a composite. -/
theorem resolve_error {d : Definition} {e : SchemaFault} (htree : ∀ f, e ≠ .tree f)
    (h : d.resolve expand = .error e) :
    d.attributes.IsComposite ∧ d.attributes.given = none ∧ d.inside expand = .error e := by
  rw [resolve_eq] at h
  split at h
  · cases h
    exact absurd rfl (htree _)
  · next kind hkind =>
    obtain ⟨hcomp, hgiven, hinside⟩ := settingOf_error htree h
    exact ⟨⟨kind, hkind, hcomp⟩, hgiven, hinside⟩

/-- A list resolves exactly if each of its definitions does. -/
theorem resolveAll_ok_iff : ∀ {ds : List Definition} {ss : List Setting},
    resolveAll expand ds = .ok ss ↔ List.Forall₂ (fun d s => d.resolve expand = .ok s) ds ss
  | [], ss => by simp [resolveAll, eq_comm]
  | d :: ds, ss => by
    rw [resolveAll, List.forall₂_cons_left_iff]
    constructor
    · intro h
      split at h
      · cases h
      · next s hs =>
        split at h
        · cases h
        · next rest hrest =>
          obtain rfl := Except.ok.inj h
          exact ⟨s, rest, hs, resolveAll_ok_iff.mp hrest, rfl⟩
    · rintro ⟨s, rest, hs, hrest, rfl⟩
      rw [hs, resolveAll_ok_iff.mpr hrest]

theorem exists_of_resolveAll_ok {ds : List Definition} {ss : List Setting} {d : Definition}
    (h : resolveAll expand ds = .ok ss) (hd : d ∈ ds) :
    ∃ s ∈ ss, d.resolve expand = .ok s := by
  have hforall := resolveAll_ok_iff.mp h
  obtain ⟨i, hi, rfl⟩ := List.getElem_of_mem hd
  have hi' : i < ss.length := hforall.length_eq ▸ hi
  exact ⟨ss[i], List.getElem_mem hi', hforall.get hi hi'⟩

/-- The first setting of a name comes from the first definition of the name. -/
theorem find?_of_forall₂ {ds : List Definition} {ss : List Setting}
    (h : List.Forall₂ (fun d s => d.resolve expand = .ok s) ds ss) (name : String) :
    (ds.find? (fun d => d.attributes.name == name) = none ∧
        ss.find? (fun c => c.info.name == name) = none) ∨
      ∃ d c, ds.find? (fun d => d.attributes.name == name) = some d ∧
        ss.find? (fun c => c.info.name == name) = some c ∧ d.resolve expand = .ok c := by
  induction h with
  | nil => exact .inl ⟨rfl, rfl⟩
  | @cons d s ds ss hs _ ih =>
    rw [List.find?_cons, List.find?_cons, (info_of_resolve hs).1]
    cases d.attributes.name == name with
    | true => exact .inr ⟨d, s, rfl, rfl, hs⟩
    | false => exact ih

end Definition

/-! ## Overrides -/

/-- An override replaces the default of the first member of its name. -/
theorem overrideMember_ok {field member : String} {d : Datum} : ∀ {cs cs' : List Setting},
    overrideMember field member d cs = .ok cs' → ∃ before c after v,
      cs = before ++ c :: after ∧ (∀ b ∈ before, b.info.name ≠ member) ∧
      c.info.name = member ∧ convert c.info.name c.info.kind (some d) = .ok v ∧
      cs' = before ++ c.withValue v :: after
  | [], _, h => by cases h
  | c :: cs, cs', h => by
    rw [overrideMember] at h
    split at h
    · next hname =>
      split at h
      · cases h
      · next v hv =>
        obtain rfl := Except.ok.inj h
        exact ⟨[], c, cs, v, rfl, by simp, hname, hv, rfl⟩
    · next hname =>
      split at h
      · cases h
      · next cs₁ hcs₁ =>
        obtain rfl := Except.ok.inj h
        obtain ⟨before, c', after, v, rfl, hbefore, hc', hv, rfl⟩ := overrideMember_ok hcs₁
        refine ⟨c :: before, c', after, v, rfl, ?_, hc', hv, rfl⟩
        exact List.forall_mem_cons.mpr ⟨hname, hbefore⟩

theorem overrideMembers_cons_ok {field member : String} {d : Datum}
    {entries : List (String × Datum)} {cs cs' : List Setting}
    (h : overrideMembers field ((member, d) :: entries) cs = .ok cs') :
    ∃ cs₁, overrideMember field member d cs = .ok cs₁ ∧
      overrideMembers field entries cs₁ = .ok cs' := by
  rw [overrideMembers] at h
  split at h
  · cases h
  · next cs₁ hcs₁ => exact ⟨cs₁, hcs₁, h⟩

/-- An override fails for a member that is not there or a default that does not fit. -/
theorem overrideMember_error {field member : String} {d : Datum} {e : SchemaFault} :
    ∀ {cs : List Setting}, overrideMember field member d cs = .error e →
      e = .unknownOverride field member ∨ ∃ f, e = .tree f
  | [], h => .inl (Except.error.inj h).symm
  | c :: cs, h => by
    rw [overrideMember] at h
    split at h
    · split at h
      · next f _ => exact .inr ⟨f, (Except.error.inj h).symm⟩
      · cases h
    · split at h
      · next he =>
        obtain rfl := Except.error.inj h
        exact overrideMember_error he
      · cases h

/-- Overrides fail for a member that is not there or a default that does not fit. -/
theorem overrideMembers_error {field : String} {e : SchemaFault} :
    ∀ {entries : List (String × Datum)} {cs : List Setting},
      overrideMembers field entries cs = .error e →
      (∃ member, e = .unknownOverride field member) ∨ ∃ f, e = .tree f
  | [], _, h => by cases h
  | (member, d) :: entries, cs, h => by
    rw [overrideMembers] at h
    split at h
    · next he =>
      obtain rfl := Except.error.inj h
      exact (overrideMember_error he).imp (fun h => ⟨member, h⟩) id
    · exact overrideMembers_error h

/-- The setting for which an entry of overrides stands : the first member of the name of the
entry, with the default of the entry. -/
def Replaced (ss : List Setting) (entry : String × Datum) (s : Setting) : Prop :=
  ∃ c v, ss.find? (fun c => c.info.name == entry.1) = some c ∧
    convert c.info.name c.info.kind (some entry.2) = .ok v ∧ s = c.withValue v

theorem Replaced.name {ss : List Setting} {entry : String × Datum} {s : Setting}
    (h : Replaced ss entry s) : s.info.name = entry.1 := by
  obtain ⟨c, v, hfind, -, rfl⟩ := h
  have hname : c.info.name = entry.1 := by simpa using List.find?_some hfind
  exact hname

/-- What the overrides of a site change : for each entry the first member of its name. -/
structure Overrides.Changes (entries : List (String × Datum)) (ss cs : List Setting) :
    Prop where
  replaced : ∀ e ∈ entries, ∃ s ∈ cs, Replaced ss e s
  mem : ∀ x ∈ cs, x ∈ ss ∨ ∃ e ∈ entries, Replaced ss e x
  kept : ∀ x ∈ ss, x ∈ cs ∨ ∃ e ∈ entries, ss.find? (fun c => c.info.name == e.1) = some x

/-- One override changes the first member of its name, and leaves the first member of every
other name as it is. -/
theorem changes_of_overrideMember {field member : String} {d : Datum} {ss cs : List Setting}
    (h : overrideMember field member d ss = .ok cs) :
    Overrides.Changes [(member, d)] ss cs ∧ ∀ name ≠ member,
      cs.find? (fun c => c.info.name == name) = ss.find? fun c => c.info.name == name := by
  obtain ⟨before, c, after, v, rfl, hbefore, rfl, hv, rfl⟩ := overrideMember_ok h
  have hfind : (before ++ c :: after).find? (fun x => x.info.name == c.info.name) = some c := by
    rw [List.find?_append, List.find?_eq_none.mpr fun b hb => by simpa using hbefore b hb]
    simp
  have hreplaced : Replaced (before ++ c :: after) (c.info.name, d) (c.withValue v) :=
    ⟨c, v, hfind, hv, rfl⟩
  refine ⟨⟨?_, fun x hx => ?_, fun x hx => ?_⟩, fun name hname => ?_⟩
  · rw [List.forall_mem_singleton]
    exact ⟨c.withValue v, by simp, hreplaced⟩
  · rcases List.mem_append.mp hx with hx | hx
    · exact .inl (List.mem_append_left _ hx)
    · rcases List.mem_cons.mp hx with rfl | hx
      · exact .inr ⟨_, List.mem_singleton_self _, hreplaced⟩
      · exact .inl (by simp [hx])
  · rcases List.mem_append.mp hx with hx | hx
    · exact .inl (List.mem_append_left _ hx)
    · rcases List.mem_cons.mp hx with rfl | hx
      · exact .inr ⟨_, List.mem_singleton_self _, hfind⟩
      · exact .inl (by simp [hx])
  · have hne : (c.info.name == name) = false := by simpa using hname.symm
    have hne' : ((c.withValue v).info.name == name) = false := hne
    rw [List.find?_append, List.find?_append, List.find?_cons, List.find?_cons, hne, hne']

/-- Overrides of different names do not get in each other's way. -/
theorem changes_of_overrideMembers {field : String} :
    ∀ {entries : List (String × Datum)} {ss cs : List Setting},
      entries.Pairwise (fun a b => a.1 ≠ b.1) → overrideMembers field entries ss = .ok cs →
      Overrides.Changes entries ss cs
  | [], ss, cs, _, h => by
    obtain rfl := Except.ok.inj h
    exact ⟨by simp, fun x hx => .inl hx, fun x hx => .inl hx⟩
  | (member, d) :: entries, ss, cs, hpair, h => by
    obtain ⟨hother, hpair⟩ := List.pairwise_cons.mp hpair
    obtain ⟨cs₁, hfirst, hrest⟩ := overrideMembers_cons_ok h
    obtain ⟨first, hfind⟩ := changes_of_overrideMember hfirst
    have rest := changes_of_overrideMembers hpair hrest
    have hfind' {e : String × Datum} (he : e ∈ entries) :
        cs₁.find? (fun c => c.info.name == e.1) = ss.find? fun c => c.info.name == e.1 :=
      hfind e.1 (hother e he).symm
    have back {e : String × Datum} (he : e ∈ entries) {x : Setting} (hx : Replaced cs₁ e x) :
        Replaced ss e x := by
      rwa [Replaced, hfind' he] at hx
    refine ⟨List.forall_mem_cons.mpr ⟨?_, fun e he => ?_⟩, fun x hx => ?_, fun x hx => ?_⟩
    · obtain ⟨s, hs, hreplaced⟩ := first.replaced _ (List.mem_singleton_self _)
      obtain hs | ⟨e, he, hs⟩ := rest.kept s hs
      · exact ⟨s, hs, hreplaced⟩
      · have hname : s.info.name = e.1 := by simpa using List.find?_some hs
        exact absurd (hreplaced.name.symm.trans hname) (hother e he)
    · obtain ⟨s, hs, hreplaced⟩ := rest.replaced e he
      exact ⟨s, hs, back he hreplaced⟩
    · obtain hx | ⟨e, he, hx⟩ := rest.mem x hx
      · obtain hx | ⟨e, he, hx⟩ := first.mem x hx
        · exact .inl hx
        · obtain rfl := List.mem_singleton.mp he
          exact .inr ⟨_, List.mem_cons_self, hx⟩
      · exact .inr ⟨e, List.mem_cons_of_mem _ he, back he hx⟩
    · obtain hx | ⟨e, he, hx⟩ := first.kept x hx
      · obtain hx | ⟨e, he, hx⟩ := rest.kept x hx
        · exact .inl hx
        · exact .inr ⟨e, List.mem_cons_of_mem _ he, (hfind' he).symm.trans hx⟩
      · obtain rfl := List.mem_singleton.mp he
        exact .inr ⟨_, List.mem_cons_self, hx⟩

/-! ## Shapes -/

namespace Schema

/-- A shape that is expanded is defined and not open, and its own settings are resolved with
it open. -/
theorem expand_ok {shapes : List (String × List Definition)} {opened : List String}
    {a : Attributes} {shape : String} {cs : List Setting}
    (h : expand shapes opened a shape = .ok cs) :
    ∃ defs ss, shapes.lookup shape = some defs ∧ shape ∉ opened ∧
      Definition.resolveAll (expand shapes (shape :: opened)) defs = .ok ss ∧
      overrideMembers a.name a.overrides.entries ss = .ok cs := by
  cases hdefs : shapes.lookup shape with
  | none =>
    rw [expand_of_lookup_none hdefs] at h
    cases h
  | some defs =>
    by_cases hopen : shape ∈ opened
    · rw [expand_of_mem hdefs hopen] at h
      cases h
    · rw [expand_of_not_mem hdefs hopen] at h
      split at h
      · cases h
      · next ss hss => exact ⟨defs, ss, rfl, hopen, hss, h⟩

/-- The settings at a site of a shape are those of the shape with some members changed. -/
theorem changes_of_resolve_ok {shapes : List (String × List Definition)} {opened : List String}
    {a : Attributes} {shape : String} {defs : List Definition} {s : Setting}
    (h : (Definition.plain a).resolve (expand shapes opened) = .ok s) (hcomp : a.IsComposite)
    (hshape : a.shape = some shape) (hdefs : shapes.lookup shape = some defs) :
    ∃ ss, Definition.resolveAll (expand shapes (shape :: opened)) defs = .ok ss ∧
      Overrides.Changes a.overrides.entries ss s.children := by
  have hcs := Definition.inside_of_resolve_ok h hcomp
  rw [Definition.inside, hshape] at hcs
  obtain ⟨defs', ss, hdefs', -, hss, hover⟩ := expand_ok hcs
  obtain rfl := Option.some.inj (hdefs.symm.trans hdefs')
  exact ⟨ss, hss, changes_of_overrideMembers a.overrides.pairwise_ne hover⟩

/-- The roots of a schema are resolved with no shape open. -/
theorem resolve_ok {s : Schema} {roots : List Setting} (h : s.resolve = .ok roots) :
    Definition.resolveAll (expand s.shapes []) s.roots = .ok roots := by
  rw [resolve] at h
  split at h
  · cases h
  · exact h

end Schema
end SettingsCompiler
