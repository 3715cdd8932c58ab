import SettingsCompiler.Proofs.Resolution
import SettingsCompiler.Schema.Reader
import Mathlib

/-!
# Shapes that use each other

A definition refers to a shape if it is a composite that takes its settings from the shape,
or a composite with one of these in its list (`Definition.Refers`). So a shape uses others,
and what the roots refer to, directly or through other shapes, is reachable.

The shapes being expanded are remembered, and an expansion forgets its own when it ends, in
success and in failure. At every moment each open shape thus reaches the one in hand : a
shape met while it is open reaches itself (`reaches_of_expand_cyclic`), and a shape that
expands reaches none of the open ones (`not_reaches_of_expand_ok`). No call of the resolver
on another goes on forever, since each leads to a smaller definition or opens one more of
the shapes there are (`wellFounded_calls`).

`resolvesShapes` puts this together for a schema.
-/

namespace SettingsCompiler

open Relation

namespace Definition

/-- Resolving the definition asks for a shape : the definition is a composite, and takes its
settings from the shape, or has its own list with a definition in it that asks for it. -/
inductive Refers : Definition → String → Prop
  | shape {a : Attributes} {x : String} : a.IsComposite → a.given = none → a.shape = some x →
      Refers (plain a) x
  | field {a : Attributes} {fields : List Definition} {d : Definition} {x : String} :
      a.IsComposite → d ∈ fields → Refers d x → Refers (inline a fields) x

variable {expand expand' : Expansion}

/-- What a definition that resolves refers to is expanded. -/
theorem exists_expand_of_refers {d : Definition} {x : String} (hd : d.Refers x) :
    ∀ {s : Setting}, d.resolve expand = .ok s → ∃ a cs, expand a x = .ok cs := by
  induction hd with
  | @shape a x hcomp _ hshape =>
    intro s h
    have hcs := inside_of_resolve_ok h hcomp
    rw [inside, hshape] at hcs
    exact ⟨a, s.children, hcs⟩
  | @field a fields d x hcomp hmem _ ih =>
    intro s h
    have hcs := inside_of_resolve_ok h hcomp
    rw [inside] at hcs
    split at hcs
    · cases hcs
    · obtain ⟨s', -, hs'⟩ := exists_of_resolveAll_ok hcs hmem
      exact ih hs'

mutual

/-- A cycle is found where a shape is expanded that the definition refers to. -/
theorem exists_refers_of_resolve_cyclic {x : String} : ∀ d : Definition,
    d.resolve expand = .error (.cyclicShape x) →
      ∃ a y, d.Refers y ∧ expand a y = .error (.cyclicShape x)
  | plain a, h => by
    obtain ⟨hcomp, hgiven, hin⟩ := resolve_error (by simp) h
    rw [inside] at hin
    split at hin
    · next y hy => exact ⟨a, y, .shape hcomp hgiven hy, hin⟩
    · cases hin
  | inline a fields, h => by
    obtain ⟨hcomp, hgiven, hin⟩ := resolve_error (by simp) h
    rw [inside] at hin
    split at hin
    · cases hin
    · obtain ⟨d, hd, a', y, hy, hexp⟩ := exists_refers_of_resolveAll_cyclic fields hin
      exact ⟨a', y, .field hcomp hd hy, hexp⟩

theorem exists_refers_of_resolveAll_cyclic {x : String} : ∀ ds : List Definition,
    resolveAll expand ds = .error (.cyclicShape x) →
      ∃ d ∈ ds, ∃ a y, d.Refers y ∧ expand a y = .error (.cyclicShape x)
  | [], h => by cases h
  | d :: ds, h => by
    rw [resolveAll] at h
    split at h
    · next he =>
      obtain rfl := Except.error.inj h
      obtain ⟨a, y, hy, hexp⟩ := exists_refers_of_resolve_cyclic d he
      exact ⟨d, List.mem_cons_self, a, y, hy, hexp⟩
    · split at h
      · next he =>
        obtain rfl := Except.error.inj h
        obtain ⟨d', hd', hrest⟩ := exists_refers_of_resolveAll_cyclic ds he
        exact ⟨d', List.mem_cons_of_mem d hd', hrest⟩
      · cases h

end

mutual

/-- A definition resolves alike wherever the shapes that it refers to expand alike. -/
theorem resolve_congr : ∀ d : Definition, (∀ a x, d.Refers x → expand a x = expand' a x) →
    d.resolve expand = d.resolve expand'
  | plain a, h => by
    rw [resolve_eq, resolve_eq]
    split
    · rfl
    · next kind hkind =>
      refine settingOf_congr fun hcomp hgiven => ?_
      rw [inside, inside]
      split
      · next x hx => exact h a x (.shape ⟨kind, hkind, hcomp⟩ hgiven hx)
      · rfl
  | inline a fields, h => by
    rw [resolve_eq, resolve_eq]
    split
    · rfl
    · next kind hkind =>
      refine settingOf_congr fun hcomp _ => ?_
      rw [inside, inside]
      split
      · rfl
      · exact resolveAll_congr fields fun d hd a' x hx => h a' x (.field ⟨kind, hkind, hcomp⟩ hd hx)

theorem resolveAll_congr : ∀ ds : List Definition,
    (∀ d ∈ ds, ∀ a x, d.Refers x → expand a x = expand' a x) →
      resolveAll expand ds = resolveAll expand' ds
  | [], _ => rfl
  | d :: ds, h => by
    rw [resolveAll, resolveAll, resolve_congr d (h d List.mem_cons_self),
      resolveAll_congr ds fun d' hd' => h d' (List.mem_cons_of_mem d hd')]

end

end Definition

namespace Schema

/-! ## Shapes that reach each other -/

/-- A definition of the first shape refers to the second. -/
def Uses (shapes : List (String × List Definition)) (x y : String) : Prop :=
  ∃ defs, shapes.lookup x = some defs ∧ ∃ d ∈ defs, d.Refers y

/-- The first shape uses the second, directly or through others. -/
abbrev Reaches (shapes : List (String × List Definition)) : String → String → Prop :=
  TransGen (Uses shapes)

/-- A root refers to the shape, directly or through other shapes. -/
def Reachable (s : Schema) (x : String) : Prop :=
  ∃ d ∈ s.roots, ∃ y, d.Refers y ∧ ReflTransGen (Uses s.shapes) y x

section

variable {shapes shapes' : List (String × List Definition)}

/-! ## Expanding a shape -/

/-- What a shape that expands uses is expanded with the shape open. -/
theorem exists_expand_of_uses {opened : List String} {a : Attributes} {x y : String}
    {cs : List Setting} (h : expand shapes opened a x = .ok cs) (hxy : Uses shapes x y) :
    ∃ b ds, expand shapes (x :: opened) b y = .ok ds := by
  obtain ⟨defs, hdefs, d, hd, hrefers⟩ := hxy
  obtain ⟨defs', ss, hdefs', -, hss, -⟩ := expand_ok h
  obtain rfl := Option.some.inj (hdefs.symm.trans hdefs')
  obtain ⟨s, -, hs⟩ := Definition.exists_of_resolveAll_ok hss hd
  exact Definition.exists_expand_of_refers hrefers hs

/-- What a shape that expands reaches is expanded with the shape open. -/
theorem exists_expand_of_reaches {opened : List String} {a : Attributes} {x y : String}
    {cs : List Setting} (h : expand shapes opened a x = .ok cs) (hxy : Reaches shapes x y) :
    ∃ inner b ds, x ∈ inner ∧ expand shapes inner b y = .ok ds := by
  induction hxy with
  | single hstep =>
    obtain ⟨b, ds, hy⟩ := exists_expand_of_uses h hstep
    exact ⟨_, b, ds, List.mem_cons_self, hy⟩
  | @tail y z _ hstep ih =>
    obtain ⟨inner, b, ds, hx, hy⟩ := ih
    obtain ⟨b', ds', hz⟩ := exists_expand_of_uses hy hstep
    exact ⟨y :: inner, b', ds', List.mem_cons_of_mem y hx, hz⟩

/-- A shape that expands does not reach itself, or it would have been met while it was open. -/
theorem not_reaches_of_expand_ok {opened : List String} {a : Attributes} {x : String}
    {cs : List Setting} (h : expand shapes opened a x = .ok cs) : ¬Reaches shapes x x := by
  intro hcycle
  obtain ⟨inner, b, ds, hmem, hx⟩ := exists_expand_of_reaches h hcycle
  obtain ⟨-, -, -, hopen, -⟩ := expand_ok hx
  exact hopen hmem

/-- A shape on which the resolver gives up is reached from the one in hand and reaches
itself, if each open shape reaches the one in hand. -/
theorem reaches_of_expand_cyclic (opened : List String) (a : Attributes) (x : String) :
    ∀ {y : String}, (∀ o ∈ opened, Reaches shapes o x) →
      expand shapes opened a x = .error (.cyclicShape y) →
      ReflTransGen (Uses shapes) x y ∧ Reaches shapes y y := by
  induction opened, a, x using expand.induct shapes with
  | case1 opened a x hdefs =>
    intro y _ h
    rw [expand_of_lookup_none hdefs] at h
    cases h
  | case2 opened a x defs hdefs hopen =>
    intro y hreach h
    rw [expand_of_mem hdefs hopen] at h
    cases h
    exact ⟨.refl, hreach x hopen⟩
  | case3 opened a x defs hdefs hopen e hall ih =>
    intro y hreach h
    rw [expand_of_not_mem hdefs hopen, hall] at h
    obtain rfl := Except.error.inj h
    obtain ⟨d, hd, b, z, hz, hexp⟩ := Definition.exists_refers_of_resolveAll_cyclic defs hall
    have hstep : Uses shapes x z := ⟨defs, hdefs, d, hd, hz⟩
    have hopened : ∀ o ∈ x :: opened, Reaches shapes o z := by
      intro o ho
      rcases List.mem_cons.mp ho with rfl | ho
      · exact .single hstep
      · exact .tail (hreach o ho) hstep
    obtain ⟨hzy, hyy⟩ := ih b z hopened hexp
    exact ⟨.head hstep hzy, hyy⟩
  | case4 opened a x defs hdefs hopen cs hall _ =>
    intro y _ h
    rw [expand_of_not_mem hdefs hopen, hall] at h
    obtain ⟨_, he⟩ | ⟨_, he⟩ := overrideMembers_error h <;> cases he

/-- A shape expands alike for shapes that are the same as far as it reaches. -/
theorem expand_congr (opened : List String) (a : Attributes) (x : String) :
    (∀ y, ReflTransGen (Uses shapes) x y → shapes'.lookup y = shapes.lookup y) →
      expand shapes' opened a x = expand shapes opened a x := by
  have inside : ∀ {opened : List String} {a : Attributes} {x : String} {defs : List Definition},
      shapes.lookup x = some defs → x ∉ opened →
      (∀ b z, (∀ y, ReflTransGen (Uses shapes) z y → shapes'.lookup y = shapes.lookup y) →
        expand shapes' (x :: opened) b z = expand shapes (x :: opened) b z) →
      (∀ y, ReflTransGen (Uses shapes) x y → shapes'.lookup y = shapes.lookup y) →
      expand shapes' opened a x = expand shapes opened a x := by
    intro opened a x defs hdefs hopen ih hsame
    rw [expand_of_not_mem hdefs hopen, expand_of_not_mem ((hsame x .refl).trans hdefs) hopen,
      Definition.resolveAll_congr defs fun d hd b z hz => ih b z fun y hzy => ?_]
    exact hsame y (.head ⟨defs, hdefs, d, hd, hz⟩ hzy)
  induction opened, a, x using expand.induct shapes with
  | case1 opened a x hdefs =>
    intro hsame
    rw [expand_of_lookup_none hdefs, expand_of_lookup_none ((hsame x .refl).trans hdefs)]
  | case2 opened a x defs hdefs hopen =>
    intro hsame
    rw [expand_of_mem hdefs hopen, expand_of_mem ((hsame x .refl).trans hdefs) hopen]
  | case3 opened a x defs hdefs hopen e _ ih => exact inside hdefs hopen ih
  | case4 opened a x defs hdefs hopen cs _ ih => exact inside hdefs hopen ih

end

/-! ## Calls of the resolver -/

/-- Resolving the second definition, with some shapes open, calls for the first : it is in
the list of the second, or in the shape that the second uses. -/
inductive Calls (shapes : List (String × List Definition)) :
    List String × Definition → List String × Definition → Prop
  | field {opened : List String} {a : Attributes} {fields : List Definition} {d : Definition} :
      d ∈ fields → Calls shapes (opened, d) (opened, .inline a fields)
  | shape {opened : List String} {a : Attributes} {x : String} {defs : List Definition}
      {d : Definition} : a.shape = some x → shapes.lookup x = some defs → x ∉ opened → d ∈ defs →
      Calls shapes (x :: opened, d) (opened, .plain a)

/-- Calls open one more shape or lead to a smaller definition. -/
theorem wellFounded_calls (shapes : List (String × List Definition)) :
    WellFounded (Calls shapes) := by
  refine Subrelation.wf (fun {p q} h => ?_) (InvImage.wf
    (fun p : List String × Definition => (unopened shapes p.1, sizeOf p.2))
    (Prod.lex Nat.lt_wfRel Nat.lt_wfRel).wf)
  cases h with
  | @field opened a fields d hd =>
    have hlt : sizeOf d < sizeOf fields := List.sizeOf_lt_of_mem hd
    have hsmall : sizeOf d < sizeOf (Definition.inline a fields) := by
      rw [Definition.inline.sizeOf_spec]
      omega
    exact Prod.Lex.right _ hsmall
  | shape _ hdefs hopen _ => exact Prod.Lex.left _ _ (unopened_cons_lt hdefs hopen)

/-- Resolving the shapes of a schema comes to an end, and the cycles that are reported are
those that the roots reach. -/
structure ResolvesShapes (s : Schema) : Prop where
  terminates : WellFounded (Calls s.shapes)
  acyclic_of_ok : ∀ roots, s.resolve = .ok roots → ∀ x, s.Reachable x →
    (∃ defs, s.shapes.lookup x = some defs) ∧ ¬Reaches s.shapes x x
  cyclic_of_error : ∀ x, s.resolve = .error (.cyclicShape x) →
    s.Reachable x ∧ Reaches s.shapes x x
  no_error_of_acyclic : (∀ x, s.Reachable x → ¬Reaches s.shapes x x) →
    ∀ x, s.resolve ≠ .error (.cyclicShape x)
  reachable_only : ∀ t : Schema, t.roots = s.roots →
    (∀ x, s.Reachable x → t.shapes.lookup x = s.shapes.lookup x) → t.resolve = s.resolve

/-- Whatever the roots of a schema that resolves reach was expanded. -/
theorem exists_expand_of_reachable {s : Schema} {roots : List Setting}
    (h : s.resolve = .ok roots) {x : String} (hx : s.Reachable x) :
    ∃ opened a cs, expand s.shapes opened a x = .ok cs := by
  obtain ⟨d, hd, y, hy, hyx⟩ := hx
  obtain ⟨s', -, hs'⟩ := Definition.exists_of_resolveAll_ok (resolve_ok h) hd
  obtain ⟨a, cs, hcs⟩ := Definition.exists_expand_of_refers hy hs'
  induction hyx with
  | refl => exact ⟨[], a, cs, hcs⟩
  | tail _ hstep ih =>
    obtain ⟨opened, b, ds, hds⟩ := ih
    obtain ⟨b', ds', hz⟩ := exists_expand_of_uses hds hstep
    exact ⟨_, b', ds', hz⟩

/-- The shape that is reported is in reach of the roots and reaches itself. -/
theorem reachable_of_resolve_cyclic {s : Schema} {x : String}
    (h : s.resolve = .error (.cyclicShape x)) : s.Reachable x ∧ Reaches s.shapes x x := by
  rw [resolve] at h
  split at h
  · cases h
  · obtain ⟨d, hd, a, y, hy, hexp⟩ := Definition.exists_refers_of_resolveAll_cyclic s.roots h
    obtain ⟨hyx, hxx⟩ := reaches_of_expand_cyclic [] a y (by simp) hexp
    exact ⟨⟨d, hd, y, hy, hyx⟩, hxx⟩

/-- For every schema, cyclic or not, resolving ends, and it reports a cycle exactly where the
roots come to one. Shapes out of reach have no say in it. -/
theorem resolvesShapes (s : Schema) : ResolvesShapes s where
  terminates := wellFounded_calls s.shapes
  acyclic_of_ok roots h x hx := by
    obtain ⟨opened, a, cs, hcs⟩ := exists_expand_of_reachable h hx
    obtain ⟨defs, -, hdefs, -⟩ := expand_ok hcs
    exact ⟨⟨defs, hdefs⟩, not_reaches_of_expand_ok hcs⟩
  cyclic_of_error _ h := reachable_of_resolve_cyclic h
  no_error_of_acyclic hacyclic x h := by
    obtain ⟨hreach, hcycle⟩ := reachable_of_resolve_cyclic h
    exact hacyclic x hreach hcycle
  reachable_only t hroots hshapes := by
    rw [resolve, resolve, hroots, Definition.resolveAll_congr s.roots fun d hd a y hy => ?_]
    exact expand_congr [] a y fun x hyx => hshapes x ⟨d, hd, y, hy, hyx⟩

/-- A struct with the settings of a shape. -/
def site (name shape : String) : Definition :=
  .plain { Definition.blank with name, type := "Struct", shape := some shape }

/-- Two shapes that use each other. -/
def ring : Schema where
  shapes := [("Left", [site "Right" "Right"]), ("Right", [site "Left" "Left"])]
  roots := [site "Prefs" "Left"]

/-- Two roots whose shapes use a third one, and a shape out of reach that uses itself. -/
def diamond : Schema where
  shapes := [("Left", [site "Size" "Size"]), ("Right", [site "Size" "Size"]), ("Size", []),
    ("Loop", [site "Loop" "Loop"])]
  roots := [site "Left" "Left", site "Right" "Right"]

/-- A struct with the settings of a shape asks for this shape alone. -/
theorem refers_site_iff {name shape x : String} : (site name shape).Refers x ↔ x = shape := by
  constructor
  · intro h
    cases h with
    | shape _ _ hshape => exact (Option.some.inj hshape).symm
  · rintro rfl
    exact .shape ⟨.struct, rfl, rfl⟩ rfl rfl

/-- The cycle of `ring` is reported. In `diamond` the shape used by both others is not taken
for a cycle, and the real cycle that no root reaches goes unnoticed. -/
theorem resolvesShapes_ring_diamond :
    (ring.resolve = .error (.cyclicShape "Left") ∧ ring.Reachable "Left" ∧
      Reaches ring.shapes "Left" "Left") ∧
    ∃ roots, diamond.resolve = .ok roots ∧ diamond.Reachable "Size" ∧
      ¬Reaches diamond.shapes "Size" "Size" ∧ Reaches diamond.shapes "Loop" "Loop" := by
  have hring : ring.resolve = .error (.cyclicShape "Left") := by cbv
  obtain ⟨roots, hdiamond⟩ : ∃ roots, diamond.resolve = .ok roots := ⟨_, by cbv⟩
  have hsize : diamond.Reachable "Size" := by
    have hstep : Uses diamond.shapes "Left" "Size" :=
      ⟨_, rfl, _, List.mem_singleton_self _, refers_site_iff.mpr rfl⟩
    exact ⟨_, List.mem_cons_self, "Left", refers_site_iff.mpr rfl, .single hstep⟩
  have hloop : Uses diamond.shapes "Loop" "Loop" :=
    ⟨_, rfl, _, List.mem_singleton_self _, refers_site_iff.mpr rfl⟩
  refine ⟨⟨hring, (resolvesShapes ring).cyclic_of_error "Left" hring⟩, roots, hdiamond, hsize,
    ?_, .single hloop⟩
  exact ((resolvesShapes diamond).acyclic_of_ok roots hdiamond "Size" hsize).2

end Schema
end SettingsCompiler
