import SettingsCompiler.Proofs.Shapes

/-!
# Shapes written out

A shape is an abbreviation : instead of asking for it, a composite could have the definitions
of the shape for a list of its own. `Schema.WrittenOut` holds of a definition and the one with
all shapes in it written out, those inside the shapes included.

A definition written out resolves to the same setting or the same fault, without shapes and
whatever shapes are open (`resolve_of_writtenOut`). What is open is no matter because nothing
that the definition reaches is (`Schema.Fresh`) ; a step into a shape opens one more, which an
acyclic shape does not reach again (`Fresh.shape`).

Overrides have no place in a list of one's own, so a schema with overrides is not covered.
`abbreviates` is the result for schemas.
-/

namespace SettingsCompiler

open Relation

namespace Definition

/-- The second definition is the first, or stands in its list or in one further inside. Only
the lists of composites count. -/
inductive Holds : Definition → Definition → Prop
  | self {d : Definition} : Holds d d
  | field {a : Attributes} {fields : List Definition} {d e : Definition} : a.IsComposite →
      d ∈ fields → Holds d e → Holds (inline a fields) e

end Definition

namespace Schema

open Definition

variable {shapes : List (String × List Definition)}

/-- The second definition is the first with all shapes written out : a composite that asks for
a shape has the definitions of the shape for its list, written out in turn. A composite with a
default of its own may stay as it is, since its shape is never asked for. -/
inductive WrittenOut (shapes : List (String × List Definition)) : Definition → Definition → Prop
  | site {a : Attributes} {x : String} {defs defs' : List Definition} : a.IsComposite →
      a.shape = some x → shapes.lookup x = some defs →
      List.Forall₂ (WrittenOut shapes) defs defs' →
      WrittenOut shapes (.plain a) (.inline { a with shape := none } defs')
  | kept {a : Attributes} : (a.IsComposite → a.given ≠ none ∨ a.shape = none) →
      WrittenOut shapes (.plain a) (.plain a)
  | list {a : Attributes} {fields fields' : List Definition} : a.IsComposite →
      List.Forall₂ (WrittenOut shapes) fields fields' →
      WrittenOut shapes (.inline a fields) (.inline a fields')
  | ignored {a : Attributes} {fields : List Definition} : ¬a.IsComposite →
      WrittenOut shapes (.inline a fields) (.inline a fields)

/-! ## What resolving a definition comes across -/

/-- The shape is one that the definition refers to, directly or through other shapes. -/
def ReachesFrom (shapes : List (String × List Definition)) (d : Definition) (x : String) : Prop :=
  ∃ y, d.Refers y ∧ ReflTransGen (Uses shapes) y x

/-- The second definition is in the first or in a shape that the first reaches. -/
def Meets (shapes : List (String × List Definition)) (d e : Definition) : Prop :=
  d.Holds e ∨ ∃ x defs, ReachesFrom shapes d x ∧ shapes.lookup x = some defs ∧
    ∃ f ∈ defs, f.Holds e

/-- A definition that can be written out while some shapes are open : what it reaches is
defined, acyclic and not open, and nothing that it meets has overrides. -/
structure Fresh (shapes : List (String × List Definition)) (opened : List String)
    (d : Definition) : Prop where
  defined : ∀ x, ReachesFrom shapes d x → ∃ defs, shapes.lookup x = some defs
  acyclic : ∀ x, ReachesFrom shapes d x → ¬Reaches shapes x x
  unopened : ∀ x, ReachesFrom shapes d x → x ∉ opened
  unchanged : ∀ e, Meets shapes d e → e.attributes.overrides.entries = []

namespace Fresh

variable {opened : List String} {a : Attributes}

/-- What can be written out can be so in the list of a composite. -/
theorem field {fields : List Definition} (h : Fresh shapes opened (.inline a fields))
    (hcomp : a.IsComposite) {d : Definition} (hd : d ∈ fields) : Fresh shapes opened d := by
  have reach {x : String} : ReachesFrom shapes d x → ReachesFrom shapes (.inline a fields) x := by
    rintro ⟨y, hy, hyx⟩
    exact ⟨y, .field hcomp hd hy, hyx⟩
  refine ⟨fun x hx => h.defined x (reach hx), fun x hx => h.acyclic x (reach hx),
    fun x hx => h.unopened x (reach hx), fun e he => h.unchanged e ?_⟩
  rcases he with he | ⟨x, defs, hx, hdefs, he⟩
  · exact .inl (.field hcomp hd he)
  · exact .inr ⟨x, defs, reach hx, hdefs, he⟩

/-- What can be written out can be so in the shape of a site, with the shape open. -/
theorem shape {x : String} {defs : List Definition} (h : Fresh shapes opened (.plain a))
    (hx : (plain a).Refers x) (hdefs : shapes.lookup x = some defs) {d : Definition}
    (hd : d ∈ defs) : Fresh shapes (x :: opened) d := by
  have reach {y : String} : ReachesFrom shapes d y →
      Reaches shapes x y ∧ ReachesFrom shapes (.plain a) y := by
    rintro ⟨z, hz, hzy⟩
    have hstep : Uses shapes x z := ⟨defs, hdefs, d, hd, hz⟩
    exact ⟨.head' hstep hzy, x, hx, .head hstep hzy⟩
  refine ⟨fun y hy => h.defined y (reach hy).2, fun y hy => h.acyclic y (reach hy).2,
    fun y hy => ?_, fun e he => h.unchanged e ?_⟩
  · intro hmem
    rcases List.mem_cons.mp hmem with rfl | hmem
    · exact h.acyclic y (reach hy).2 (reach hy).1
    · exact h.unopened y (reach hy).2 hmem
  · rcases he with he | ⟨y, defs', hy, hdefs', he⟩
    · exact .inr ⟨x, defs, ⟨x, hx, .refl⟩, hdefs, d, hd, he⟩
    · exact .inr ⟨y, defs', (reach hy).2, hdefs', he⟩

/-- A shape that is asked for gives the settings of its own definitions. -/
theorem expand_eq {x : String} {defs : List Definition} (h : Fresh shapes opened (.plain a))
    (hx : (plain a).Refers x) (hdefs : shapes.lookup x = some defs) :
    expand shapes opened a x = resolveAll (expand shapes (x :: opened)) defs := by
  have hover : a.overrides.entries = [] := h.unchanged _ (.inl .self)
  rw [expand_of_not_mem hdefs (h.unopened x ⟨x, hx, .refl⟩), hover]
  cases resolveAll (expand shapes (x :: opened)) defs <;> rfl

end Fresh

/-! ## Resolving what is written out -/

/-- Definitions that differ in their shapes at most resolve alike if the settings inside
them are alike. -/
theorem resolve_of_inside {expand expand' : Expansion} {d d' : Definition} {shape : Option String}
    (hattr : d'.attributes = { d.attributes with shape })
    (h : d.attributes.IsComposite → d.attributes.given = none →
      d'.inside expand' = d.inside expand) : d'.resolve expand' = d.resolve expand := by
  rw [resolve_eq, resolve_eq, hattr]
  dsimp only
  split
  · rfl
  · next kind hkind => exact settingOf_congr fun hcomp hgiven => h ⟨kind, hkind, hcomp⟩ hgiven

/-- Lists resolve alike if their definitions do, pair by pair. -/
theorem resolveAll_of_forall₂ {R : Definition → Definition → Prop} {expand expand' : Expansion}
    {ds ds' : List Definition} (hall : List.Forall₂ R ds ds')
    (h : ∀ d ∈ ds, ∀ d', R d d' → d'.resolve expand' = d.resolve expand) :
    resolveAll expand' ds' = resolveAll expand ds := by
  induction hall with
  | nil => rfl
  | cons hd _ ih =>
    obtain ⟨hfirst, hrest⟩ := List.forall_mem_cons.mp h
    rw [resolveAll, resolveAll, hfirst _ hd, ih hrest]

/-- A definition written out resolves as the definition itself does. -/
theorem resolve_of_writtenOut (opened : List String) (d : Definition) :
    Fresh shapes opened d → ∀ d', WrittenOut shapes d d' →
      d'.resolve (expand [] []) = d.resolve (expand shapes opened) := by
  -- The calls of the resolver carry the induction : into a list, and into a shape that is opened.
  induction hp : (opened, d) using (wellFounded_calls shapes).induction generalizing opened d with
  | h p ih =>
    subst hp
    intro hfresh d' hd'
    cases hd' with
    | @site a x defs defs' hcomp hshape hdefs hall =>
      refine resolve_of_inside (d := .plain a) rfl fun _ hgiven => ?_
      have hrefers : (plain a).Refers x := .shape hcomp hgiven hshape
      have hopen : x ∉ opened := hfresh.unopened x ⟨x, hrefers, .refl⟩
      rw [inside, inside, hshape]
      refine (resolveAll_of_forall₂ hall fun e he => ?_).trans (hfresh.expand_eq hrefers hdefs).symm
      exact ih _ (.shape hshape hdefs hopen he) _ _ rfl (hfresh.shape hrefers hdefs he)
    | @kept a hkept =>
      refine resolve_of_inside (d := .plain a) rfl fun hcomp hgiven => ?_
      obtain hgiven' | hshape := hkept hcomp
      · exact absurd hgiven hgiven'
      · rw [inside, inside, hshape]
    | @list a fields fields' hcomp hall =>
      refine resolve_of_inside (d := .inline a fields) rfl fun _ _ => ?_
      rw [inside, inside]
      split
      · rfl
      · exact resolveAll_of_forall₂ hall fun e he =>
          ih _ (.field he) _ _ rfl (hfresh.field hcomp he)
    | @ignored a fields hcomp =>
      exact resolve_of_inside (d := .inline a fields) rfl fun h _ => absurd h hcomp

/-! ## Writing out -/

theorem exists_forall₂ {α β : Type} {R : α → β → Prop} : ∀ {l : List α}, (∀ a ∈ l, ∃ b, R a b) →
    ∃ l', List.Forall₂ R l l'
  | [], _ => ⟨[], .nil⟩
  | a :: l, h => by
    obtain ⟨⟨b, hb⟩, hl⟩ := List.forall_mem_cons.mp h
    obtain ⟨l', hl'⟩ := exists_forall₂ hl
    exact ⟨b :: l', .cons hb hl'⟩

/-- What has only defined and acyclic shapes can be written out, by induction on calls of the
resolver. -/
theorem exists_writtenOut (opened : List String) (d : Definition) :
    Fresh shapes opened d → ∃ d', WrittenOut shapes d d' := by
  induction hp : (opened, d) using (wellFounded_calls shapes).induction generalizing opened d with
  | h p ih =>
    subst hp
    intro hfresh
    cases d with
    | plain a =>
      by_cases hrefers : ∃ x, (plain a).Refers x
      · obtain ⟨x, hx⟩ := hrefers
        cases hx with
        | shape hcomp hgiven hshape =>
          have hx : (plain a).Refers x := .shape hcomp hgiven hshape
          obtain ⟨defs, hdefs⟩ := hfresh.defined x ⟨x, hx, .refl⟩
          have hopen : x ∉ opened := hfresh.unopened x ⟨x, hx, .refl⟩
          obtain ⟨defs', hall⟩ := exists_forall₂ fun e he =>
            ih _ (.shape hshape hdefs hopen he) _ _ rfl (hfresh.shape hx hdefs he)
          exact ⟨_, .site hcomp hshape hdefs hall⟩
      · refine ⟨_, .kept fun hcomp => ?_⟩
        by_contra hnot
        obtain ⟨hgiven, hshape⟩ := not_or.mp hnot
        obtain ⟨x, hx⟩ := Option.ne_none_iff_exists'.mp hshape
        exact hrefers ⟨x, .shape hcomp (not_not.mp hgiven) hx⟩
    | inline a fields =>
      by_cases hcomp : a.IsComposite
      · obtain ⟨fields', hall⟩ := exists_forall₂ fun e he =>
          ih _ (.field he) _ _ rfl (hfresh.field hcomp he)
        exact ⟨_, .list hcomp hall⟩
      · exact ⟨_, .ignored hcomp⟩

theorem exists_of_forall₂ {α β : Type} {R : α → β → Prop} {l : List α} {l' : List β} {b : β}
    (h : List.Forall₂ R l l') (hb : b ∈ l') : ∃ a ∈ l, R a b := by
  obtain ⟨i, hi, rfl⟩ := List.getElem_of_mem hb
  have hi' : i < l.length := h.length_eq ▸ hi
  exact ⟨l[i], List.getElem_mem hi', h.get hi' hi⟩

/-- What is written out asks for no shape. -/
theorem not_refers_of_writtenOut {d' : Definition} {x : String} (h : d'.Refers x) :
    ∀ {d : Definition}, ¬WrittenOut shapes d d' := by
  induction h with
  | shape hcomp hgiven hshape =>
    intro d hd
    cases hd with
    | kept hkept =>
      obtain hgiven' | hshape' := hkept hcomp
      · exact hgiven' hgiven
      · rw [hshape] at hshape'
        cases hshape'
  | field hcomp hmem _ ih =>
    intro d hd
    cases hd with
    | site _ _ _ hall =>
      obtain ⟨e, -, he⟩ := exists_of_forall₂ hall hmem
      exact ih he
    | list _ hall =>
      obtain ⟨e, -, he⟩ := exists_of_forall₂ hall hmem
      exact ih he
    | ignored hcomp' => exact hcomp' hcomp

/-! ## Schemas -/

/-- Every shape that the roots reach is defined and acyclic, and nothing that the roots meet,
in a list or in a shape, has overrides. -/
structure IsAbbreviated (s : Schema) : Prop where
  defined : ∀ x, s.Reachable x → ∃ defs, s.shapes.lookup x = some defs
  acyclic : ∀ x, s.Reachable x → ¬Reaches s.shapes x x
  unchanged : ∀ d ∈ s.roots, ∀ e, Meets s.shapes d e → e.attributes.overrides.entries = []

/-- The second schema is the first with all shapes written out and none left. -/
structure IsWrittenOut (s t : Schema) : Prop where
  shapes : t.shapes = []
  roots : List.Forall₂ (WrittenOut s.shapes) s.roots t.roots

/-- The shapes of a schema can be written out ; what comes of it asks for no shape and gives
the same settings or the same fault. -/
structure Abbreviates (s : Schema) : Prop where
  exists_writtenOut : ∃ t, IsWrittenOut s t
  not_reachable : ∀ t, IsWrittenOut s t → ∀ x, ¬t.Reachable x
  resolve : ∀ t, IsWrittenOut s t → t.resolve = s.resolve

namespace IsAbbreviated

variable {s : Schema}

/-- A root of an abbreviated schema can be written out from the start. -/
theorem fresh (h : s.IsAbbreviated) {d : Definition} (hd : d ∈ s.roots) :
    Fresh s.shapes [] d where
  defined := fun x ⟨y, hy, hyx⟩ => h.defined x ⟨d, hd, y, hy, hyx⟩
  acyclic := fun x ⟨y, hy, hyx⟩ => h.acyclic x ⟨d, hd, y, hy, hyx⟩
  unopened _ _ := List.not_mem_nil
  unchanged := h.unchanged d hd

end IsAbbreviated

/-- Every schema without overrides whose shapes are defined and acyclic says the same with its
shapes written out. -/
theorem abbreviates {s : Schema} (h : s.IsAbbreviated) : Abbreviates s where
  exists_writtenOut := by
    obtain ⟨roots, hroots⟩ := exists_forall₂ fun d hd =>
      Schema.exists_writtenOut [] d (h.fresh hd)
    exact ⟨⟨[], roots⟩, rfl, hroots⟩
  not_reachable t ht x := by
    rintro ⟨d', hd', y, hy, -⟩
    obtain ⟨d, -, hd⟩ := exists_of_forall₂ ht.roots hd'
    exact not_refers_of_writtenOut hy hd
  resolve t ht := by
    have hempty : t.roots.isEmpty = s.roots.isEmpty := by
      rw [Bool.eq_iff_iff, List.isEmpty_iff_length_eq_zero, List.isEmpty_iff_length_eq_zero,
        ht.roots.length_eq]
    rw [Schema.resolve, Schema.resolve, hempty, ht.shapes]
    split
    · rfl
    · exact resolveAll_of_forall₂ ht.roots fun d hd => resolve_of_writtenOut [] d (h.fresh hd)

/-! ### The diamond, written out -/

/-- A struct with a list of its own. -/
def box (name : String) (fields : List Definition) : Definition :=
  .inline { Definition.blank with name, type := "Struct" } fields

/-- The schema `diamond` with its shapes written out. -/
def boxes : Schema where
  shapes := []
  roots := [box "Left" [box "Size" []], box "Right" [box "Size" []]]

theorem holds_site {name shape : String} {e : Definition} (h : (site name shape).Holds e) :
    e = site name shape := by
  cases h
  rfl

/-- What the roots of the diamond reach : a shape with one site in it, or the one with none. -/
theorem lookup_diamond {x : String} (h : diamond.Reachable x) :
    (diamond.shapes.lookup x = some [site "Size" "Size"] ∧ x ≠ "Size") ∨
      (diamond.shapes.lookup x = some [] ∧ x = "Size") := by
  obtain ⟨d, hd, y, hy, hyx⟩ := h
  induction hyx with
  | refl =>
    simp only [diamond, List.mem_cons, List.not_mem_nil, or_false] at hd
    rcases hd with rfl | rfl <;> rw [refers_site_iff.mp hy] <;> exact .inl ⟨rfl, by decide⟩
  | @tail x z _ hstep ih =>
    obtain ⟨defs, hdefs, e, he, hz⟩ := hstep
    rcases ih with ⟨hx, -⟩ | ⟨hx, -⟩
    · obtain rfl := Option.some.inj (hdefs.symm.trans hx)
      rw [List.mem_singleton.mp he] at hz
      exact .inr ⟨refers_site_iff.mp hz ▸ rfl, refers_site_iff.mp hz⟩
    · obtain rfl := Option.some.inj (hdefs.symm.trans hx)
      cases he

/-- The cycle of `diamond` is out of reach, so no root is kept from being written out. -/
theorem isAbbreviated_diamond : diamond.IsAbbreviated where
  defined x hx := (lookup_diamond hx).elim (fun h => ⟨_, h.1⟩) fun h => ⟨_, h.1⟩
  acyclic x hx hcycle := by
    have hsize (y : String) : ¬Uses diamond.shapes "Size" y := by
      rintro ⟨defs, hdefs, d, hd, -⟩
      obtain rfl := Option.some.inj hdefs
      cases hd
    obtain ⟨z, ⟨defs, hdefs, d, hd, hz⟩, hzx⟩ := TransGen.head'_iff.mp hcycle
    rcases lookup_diamond hx with ⟨hlookup, hne⟩ | ⟨hlookup, rfl⟩
    · obtain rfl := Option.some.inj (hdefs.symm.trans hlookup)
      rw [List.mem_singleton.mp hd] at hz
      obtain rfl := refers_site_iff.mp hz
      obtain rfl | ⟨w, hw, -⟩ := hzx.cases_head
      · exact hne rfl
      · exact hsize w hw
    · exact hsize z ⟨defs, hdefs, d, hd, hz⟩
  unchanged d hd e he := by
    simp only [diamond, List.mem_cons, List.not_mem_nil, or_false] at hd
    rcases he with he | ⟨x, defs, ⟨y, hy, hyx⟩, hdefs, f, hf, he⟩
    · rcases hd with rfl | rfl <;> rw [holds_site he] <;> rfl
    · have hx : diamond.Reachable x := ⟨d, by simpa [diamond] using hd, y, hy, hyx⟩
      rcases lookup_diamond hx with ⟨hlookup, -⟩ | ⟨hlookup, -⟩
      · obtain rfl := Option.some.inj (hdefs.symm.trans hlookup)
        rw [List.mem_singleton.mp hf] at he
        rw [holds_site he]
        rfl
      · obtain rfl := Option.some.inj (hdefs.symm.trans hlookup)
        cases hf

/-- The shape that both roots of `diamond` come to is written out twice. -/
theorem isWrittenOut_boxes : IsWrittenOut diamond boxes := by
  have size : WrittenOut diamond.shapes (site "Size" "Size") (box "Size" []) :=
    .site ⟨.struct, rfl, rfl⟩ rfl rfl .nil
  refine ⟨rfl, .cons ?_ (.cons ?_ .nil)⟩
  · exact .site ⟨.struct, rfl, rfl⟩ rfl rfl (.cons size .nil)
  · exact .site ⟨.struct, rfl, rfl⟩ rfl rfl (.cons size .nil)

/-- The schema `diamond` says the same as `boxes`. -/
theorem abbreviates_diamond :
    diamond.IsAbbreviated ∧ IsWrittenOut diamond boxes ∧ boxes.resolve = diamond.resolve :=
  ⟨isAbbreviated_diamond, isWrittenOut_boxes,
    (abbreviates isAbbreviated_diamond).resolve boxes isWrittenOut_boxes⟩

end Schema
end SettingsCompiler
