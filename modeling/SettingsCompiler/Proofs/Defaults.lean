import SettingsCompiler.Proofs.Progress
import SettingsCompiler.Proofs.Resolution
import SettingsCompiler.Schema.Reader
import Mathlib

/-!
# Defaults in a resolved tree

A default gets into a tree in two ways : a definition gives its own, and a site that uses a
shape gives those of members anew. Each is checked against the kind of its setting, with the
null default passed for every kind. A definition may not give a composite any default at all,
but a site may give a member that is a composite the null default anew, and the member loses
its list of settings (`Setting.isCleared`).

That is the only way in which a resolved tree is not sound (`sane_of_resolve`), and it comes
about wherever a definition asks for it (`exists_cleared_of_clears`). `checksDefaults` puts
this together for a schema.
-/

namespace SettingsCompiler

open Data Setting

namespace Setting

/-- Whether the setting is a composite whose list of settings was replaced by the null
default. -/
def isCleared : Setting → Bool
  | leaf info .null => info.kind.isComposite
  | _ => false

/-- A cleared setting is not well formed. -/
theorem not_isWellFormed_of_isCleared {s : Setting} (h : s.isCleared = true) :
    s.isWellFormed = false := by
  unfold isCleared at h
  split at h
  · simp [Setting.isWellFormed, Value.fits, h]
  · cases h

end Setting

/-! ## Defaults and kinds -/

theorem fits_of_map_text {kind : Kind} {text? : Option String} {v : Value}
    (h : text?.map Value.text = some v) (hkind : kind.isTextual = true) :
    v.fits kind = true := by
  obtain ⟨s, -, rfl⟩ := Option.map_eq_some_iff.mp h
  exact hkind

/-- A datum that is read as a value of a plain kind gives one that fits. -/
theorem fits_of_asValue? {kind : Kind} {d : Datum} {v : Value} (h : d.asValue? kind = some v)
    (hplain : kind.isComposite = false) : v.fits kind = true := by
  rw [Datum.asValue?.eq_def] at h
  split at h
  · obtain rfl := Option.some.inj h
    rw [Value.fits, hplain]
    rfl
  · split at h
    · split at h
      · obtain rfl := Option.some.inj h
        rfl
      · cases h
    · split at h
      · split at h
        · obtain rfl := Option.some.inj h
          rfl
        · cases h
      · cases h
    any_goals cases h
    all_goals exact fits_of_map_text h rfl

/-- A default that is converted for a plain kind fits it. -/
theorem fits_of_convert {name : String} {kind : Kind} {given : Option Datum} {v : Value}
    (h : convert name kind given = .ok v) (hplain : kind.isComposite = false) :
    v.fits kind = true := by
  unfold convert at h
  split at h
  · obtain rfl := Except.ok.inj h
    rw [Value.fits, hplain]
    rfl
  · split at h
    · next hv =>
      obtain rfl := Except.ok.inj h
      exact fits_of_asValue? hv hplain
    · cases h

/-- For a composite only the null default is converted. -/
theorem eq_null_of_convert {name : String} {kind : Kind} {d : Datum} {v : Value}
    (h : convert name kind (some d) = .ok v) (hcomp : kind.isComposite = true) :
    d = .null ∧ v = .null := by
  rw [convert] at h
  split at h
  · next hv =>
    obtain rfl := Except.ok.inj h
    rw [Datum.asValue?.eq_def] at hv
    split at hv
    · exact ⟨rfl, (Option.some.inj hv).symm⟩
    · cases kind <;> simp_all [Kind.isComposite]
  · cases h

namespace Definition

/-! ## Definitions that clear a composite -/

/-- Resolving the definition clears a composite : a site gives one anew the null default, or
a definition does that is in the shape of a site or in the definition's own list. -/
inductive Clears (shapes : List (String × List Definition)) : Definition → Prop
  | member {a : Attributes} {shape member : String} {defs : List Definition} {d : Definition} :
      a.IsComposite → a.shape = some shape → shapes.lookup shape = some defs →
      (member, .null) ∈ a.overrides.entries →
      defs.find? (fun d => d.attributes.name == member) = some d → d.attributes.IsComposite →
      Clears shapes (plain a)
  | shape {a : Attributes} {shape : String} {defs : List Definition} {d : Definition} :
      a.IsComposite → a.shape = some shape → shapes.lookup shape = some defs → d ∈ defs →
      Clears shapes d → Clears shapes (plain a)
  | field {a : Attributes} {fields : List Definition} {d : Definition} :
      a.IsComposite → d ∈ fields → Clears shapes d → Clears shapes (inline a fields)

/-- Only composites clear anything. -/
theorem Clears.isComposite {shapes : List (String × List Definition)} {d : Definition}
    (h : d.Clears shapes) : d.attributes.IsComposite := by
  cases h <;> assumption

end Definition

/-- Every setting of the tree is well formed, or was cleared where `cleared` holds. -/
def Setting.Sane (cleared : Prop) (root : Setting) : Prop :=
  ∀ x, Within root x → x.isWellFormed = true ∨ (x.isCleared = true ∧ cleared)

namespace Setting

/-- A tree that is sane is so where more may be cleared. -/
theorem Sane.mono {p q : Prop} {root : Setting} (hpq : p → q) (h : root.Sane p) : root.Sane q :=
  fun x hx => (h x hx).imp id (And.imp id hpq)

theorem sane_leaf {p : Prop} {info : Info} {value : Value}
    (h : value.fits info.kind = true) : (leaf info value).Sane p := by
  intro x hx
  obtain rfl | ⟨c, hc, -⟩ := within_iff.mp hx
  · exact .inl h
  · cases hc

theorem sane_group {p : Prop} {info : Info} {cs : List Setting}
    (hcomp : info.kind.isComposite = true) (h : ∀ c ∈ cs, c.Sane p) : (group info cs).Sane p := by
  intro x hx
  obtain rfl | ⟨c, hc, hx⟩ := within_iff.mp hx
  · exact .inl hcomp
  · exact h c hc x hx

end Setting

/-! ## What is cleared, and where -/

namespace Definition

variable {shapes : List (String × List Definition)} {expand : Expansion}

/-- The setting of a definition is sane if the settings inside are. -/
theorem sane_of_makes {p : Prop} {a : Attributes} {kind : Kind}
    {inside : Except SchemaFault (List Setting)} {s : Setting} (h : Makes a kind inside s)
    (hinside : kind.isComposite = true → ∀ cs, inside = .ok cs → ∀ c ∈ cs, c.Sane p) : s.Sane p := by
  cases h with
  | composite hcomp _ hcs =>
    rw [makeGroup, Attributes.dress_group]
    exact sane_group (by simpa [infoOf] using hcomp) (hinside hcomp _ hcs)
  | comment hcom =>
    rw [make, Attributes.dress_leaf]
    exact sane_leaf (by simp [infoOf, hcom, Value.fits, Kind.isComposite])
  | plain hplain _ hv =>
    rw [make, Attributes.dress_leaf]
    exact sane_leaf (by simpa [infoOf] using fits_of_convert hv hplain)

/-- Whatever is cleared under a site of the shape, the site clears. -/
def ClearsAt (shapes : List (String × List Definition)) (a : Attributes) (shape : String) :
    Prop :=
  a.IsComposite → a.shape = some shape → (plain a).Clears shapes

mutual

/-- A definition makes a sane tree if shapes are expanded to sane trees. -/
theorem sane_of_resolve
    (hexpand : ∀ a shape cs, expand a shape = .ok cs → ∀ c ∈ cs, c.Sane (ClearsAt shapes a shape)) :
    ∀ (d : Definition) {s : Setting}, d.resolve expand = .ok s → s.Sane (d.Clears shapes)
  | plain a, s, h => by
    obtain ⟨kind, hkind, hset⟩ := resolve_ok h
    refine sane_of_makes (settingOf_ok hset) fun hcomp cs hcs c hc => ?_
    rw [inside] at hcs
    split at hcs
    · next shape hshape =>
      exact (hexpand a shape cs hcs c hc).mono fun h => h ⟨kind, hkind, hcomp⟩ hshape
    · cases hcs
  | inline a fields, s, h => by
    obtain ⟨kind, hkind, hset⟩ := resolve_ok h
    refine sane_of_makes (settingOf_ok hset) fun hcomp cs hcs c hc => ?_
    rw [inside] at hcs
    split at hcs
    · cases hcs
    · obtain ⟨d, hd, hc⟩ := sane_of_resolveAll hexpand fields hcs c hc
      exact hc.mono (.field ⟨kind, hkind, hcomp⟩ hd)

/-- A list of definitions makes sane trees if shapes are expanded to sane trees. -/
theorem sane_of_resolveAll
    (hexpand : ∀ a shape cs, expand a shape = .ok cs → ∀ c ∈ cs, c.Sane (ClearsAt shapes a shape)) :
    ∀ (ds : List Definition) {ss : List Setting}, resolveAll expand ds = .ok ss →
      ∀ s ∈ ss, ∃ d ∈ ds, s.Sane (d.Clears shapes)
  | [], ss, h => by
    obtain rfl := Except.ok.inj h
    simp
  | d :: ds, ss, h => by
    rw [resolveAll_ok_iff, List.forall₂_cons_left_iff] at h
    obtain ⟨s, rest, hs, hrest, rfl⟩ := h
    refine List.forall_mem_cons.mpr ⟨⟨d, List.mem_cons_self, sane_of_resolve hexpand d hs⟩, ?_⟩
    intro s' hs'
    obtain ⟨d', hd', hsane⟩ := sane_of_resolveAll hexpand ds (resolveAll_ok_iff.mpr hrest) s' hs'
    exact ⟨d', List.mem_cons_of_mem d hd', hsane⟩

end

/-- The settings of a shape that is expanded at a site. -/
theorem sane_of_expand (opened : List String) (a : Attributes) (shape : String) :
    ∀ cs, Schema.expand shapes opened a shape = .ok cs →
      ∀ c ∈ cs, c.Sane (ClearsAt shapes a shape) := by
  induction opened, a, shape using Schema.expand.induct shapes with
  | case1 opened a shape hdefs =>
    intro cs h
    rw [Schema.expand_of_lookup_none hdefs] at h
    cases h
  | case2 opened a shape defs hdefs hopen =>
    intro cs h
    rw [Schema.expand_of_mem hdefs hopen] at h
    cases h
  | case3 opened a shape defs hdefs hopen e hall _ =>
    intro cs h
    rw [Schema.expand_of_not_mem hdefs hopen, hall] at h
    cases h
  | case4 opened a shape defs hdefs hopen ss hall ih =>
    intro cs h c hc
    rw [Schema.expand_of_not_mem hdefs hopen, hall] at h
    obtain hc | ⟨⟨member, given⟩, he, c', v, hfind, hv, rfl⟩ :=
      (changes_of_overrideMembers a.overrides.pairwise_ne h).mem c hc
    · obtain ⟨d, hd, hsane⟩ := sane_of_resolveAll ih defs hall c hc
      exact hsane.mono fun hclears hcomp hshape => .shape hcomp hshape hdefs hd hclears
    · cases hcomp' : c'.info.kind.isComposite with
      | false => exact sane_leaf (fits_of_convert hv hcomp')
      | true =>
        obtain ⟨rfl, rfl⟩ := eq_null_of_convert hv hcomp'
        obtain ⟨-, hnone⟩ | ⟨d, c, hd, hc', hdc⟩ :=
          find?_of_forall₂ (resolveAll_ok_iff.mp hall) member
        · rw [hnone] at hfind
          cases hfind
        · obtain rfl := Option.some.inj (hc'.symm.trans hfind)
          intro x hx
          obtain rfl | ⟨b, hb, -⟩ := within_iff.mp hx
          · refine .inr ⟨hcomp', fun hcomp hshape => ?_⟩
            exact .member hcomp hshape hdefs he hd ((isComposite_iff_of_resolve hdc).mpr hcomp')
          · cases hb

/-- What a definition clears is in its tree. -/
theorem exists_cleared_of_clears {d : Definition} (hd : d.Clears shapes) :
    ∀ {opened : List String} {s : Setting}, d.resolve (Schema.expand shapes opened) = .ok s →
      ∃ x, Within s x ∧ x.isCleared = true := by
  -- A composite for which there is an override is cleared by it.
  have cleared {ss cs : List Setting} {entry : String × Datum} {c : Setting}
      (hcs : ∃ s ∈ cs, Replaced ss entry s)
      (hfind : ss.find? (fun c => c.info.name == entry.1) = some c)
      (hcomp : c.info.kind.isComposite = true) : ∃ x ∈ cs, x.isCleared = true := by
    obtain ⟨s, hs, c', v, hfind', hv, rfl⟩ := hcs
    obtain rfl := Option.some.inj (hfind'.symm.trans hfind)
    obtain ⟨-, rfl⟩ := eq_null_of_convert hv hcomp
    exact ⟨_, hs, hcomp⟩
  induction hd with
  | @member a shape member defs d hcomp hshape hdefs he hd hdcomp =>
    intro opened s h
    obtain ⟨ss, hss, hchanges⟩ := Schema.changes_of_resolve_ok h hcomp hshape hdefs
    obtain ⟨hnone, -⟩ | ⟨d', c, hd', hfind, hdc⟩ :=
      find?_of_forall₂ (resolveAll_ok_iff.mp hss) member
    · rw [hnone] at hd
      cases hd
    · obtain rfl := Option.some.inj (hd'.symm.trans hd)
      have hccomp := (isComposite_iff_of_resolve hdc).mp hdcomp
      obtain ⟨x, hx, hcleared⟩ := cleared (hchanges.replaced _ he) hfind hccomp
      exact ⟨x, .child .root hx, hcleared⟩
  | @shape a shape defs d hcomp hshape hdefs hmem hd ih =>
    intro opened s h
    obtain ⟨ss, hss, hchanges⟩ := Schema.changes_of_resolve_ok h hcomp hshape hdefs
    obtain ⟨c, hc, hdc⟩ := exists_of_resolveAll_ok hss hmem
    obtain hc | ⟨e, he, hfind⟩ := hchanges.kept c hc
    · obtain ⟨x, hx, hcleared⟩ := ih hdc
      exact ⟨x, .of_child hc hx, hcleared⟩
    · have hccomp := (isComposite_iff_of_resolve hdc).mp hd.isComposite
      obtain ⟨x, hx, hcleared⟩ := cleared (hchanges.replaced e he) hfind hccomp
      exact ⟨x, .child .root hx, hcleared⟩
  | @field a fields d hcomp hmem _ ih =>
    intro opened s h
    have hcs := inside_of_resolve_ok h hcomp
    rw [inside] at hcs
    split at hcs
    · cases hcs
    · obtain ⟨c, hc, hdc⟩ := exists_of_resolveAll_ok hcs hmem
      obtain ⟨x, hx, hcleared⟩ := ih hdc
      exact ⟨x, .of_child hc hx, hcleared⟩

/-- The tree of a definition is sound exactly if the definition clears nothing. -/
theorem isSound_iff_of_resolve {d : Definition} {opened : List String} {s : Setting}
    (h : d.resolve (Schema.expand shapes opened) = .ok s) :
    s.IsSound ↔ ¬d.Clears shapes := by
  constructor
  · intro hs hd
    obtain ⟨x, hx, hcleared⟩ := exists_cleared_of_clears hd h
    have hx' := hs x hx
    rw [not_isWellFormed_of_isCleared hcleared] at hx'
    cases hx'
  · intro hd x hx
    obtain hx | ⟨-, hclears⟩ := sane_of_resolve (sane_of_expand opened) d h x hx
    · exact hx
    · exact absurd hclears hd

end Definition

namespace Schema

/-- What the defaults are in the trees of a schema. Every setting at any depth is well formed
or cleared ; a root is sound exactly if its definition clears nothing, and no pass over a
sound root fails for the default of a setting. -/
structure ChecksDefaults (s : Schema) (roots : List Setting) : Prop where
  wellFormed : ∀ root ∈ roots, ∀ x, Within root x → x.isWellFormed = true ∨ x.isCleared = true
  sound : List.Forall₂ (fun d root => root.IsSound ↔ ¬d.Clears s.shapes) s.roots roots
  passes : ∀ root ∈ roots, root.IsSound → PassesSound root

/-- In every schema that resolves, all settings are well formed but for composites that a
definition clears by a null default. -/
theorem checksDefaults {s : Schema} {roots : List Setting} (h : s.resolve = .ok roots) :
    ChecksDefaults s roots where
  wellFormed root hroot x hx := by
    obtain ⟨d, -, hsane⟩ := Definition.sane_of_resolveAll
      (Definition.sane_of_expand []) s.roots (resolve_ok h) root hroot
    exact (hsane x hx).imp id And.left
  sound := (Definition.resolveAll_ok_iff.mp (resolve_ok h)).imp
    fun _ _ hd => Definition.isSound_iff_of_resolve hd
  passes _ _ := passesSound

/-- A struct with the settings of the shape `Margin`, and defaults given anew. -/
def marginAt (name : String) (defaults : List (String × Datum)) : Definition :=
  .plain { Definition.blank with
    name, type := "Struct", shape := some "Margin", overrides := .ofEntries defaults }

/-- Two sites of one shape. The first gives a member a default anew, the second clears one. -/
def margins : Schema where
  shapes := [("Margin", [.plain { Definition.blank with name := "Top", type := "Int" },
    .inline { Definition.blank with name := "Inner", type := "Struct" } []])]
  roots := [marginAt "Page" [("Top", .int 2)], marginAt "Prefs" [("Inner", .null)]]

/-- The trees of `margins`. -/
def marginRoots : List Setting :=
  [.makeGroup "Page" .struct [.make "Top" .int (.int 2) "", .makeGroup "Inner" .struct [] ""] "",
    .makeGroup "Prefs" .struct [.make "Top" .int .null "", .make "Inner" .struct .null ""] ""]

/-- The default that the first site of `margins` gives anew is checked and taken. -/
theorem checksDefaults_margins :
    margins.resolve = .ok marginRoots ∧ ChecksDefaults margins marginRoots := by
  have h : margins.resolve = .ok marginRoots := by cbv
  exact ⟨h, checksDefaults h⟩

/-- A schema is accepted with a composite in its trees that has no list of settings, and then
there are no tables for it. -/
theorem not_isSound_margins : margins.resolve = .ok marginRoots ∧
    ∃ root ∈ marginRoots, ¬root.IsSound ∧
      ∃ r, root.tables.runFrom .empty = (.error (.danglingStruct "Inner" "Inner"), r) := by
  have h : margins.resolve = .ok marginRoots := by cbv
  refine ⟨h, _, List.mem_cons_of_mem _ (List.mem_singleton_self _), fun hsound => ?_, _, rfl⟩
  have hinner := hsound (.make "Inner" .struct .null "")
    (.child .root (List.mem_cons_of_mem _ (List.mem_singleton_self _)))
  cases hinner

end Schema
end SettingsCompiler
