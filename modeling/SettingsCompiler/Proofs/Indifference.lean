import SettingsCompiler.Proofs.Crowding
import Mathlib.Data.List.Forall2

/-!
# What each backend does not read

Two trees are alike up to a relation of attributes if one is the other with attributes exchanged
for related ones, at any number of places (`Alike`). Headers and documentation are made from
one tree, and each has attributes of its own. Those that documentation alone shows leave no trace
in a header, nor in the fault if there is none (`compileFrom_of_alike`) ; those that generated
code alone shows leave none in an outline (`outline_of_alike`).

Both are simulations : setting by setting the two trees are asked the same questions, and give
the same answers up to the children they hand over. The fault of a composite without children is
the one place where documentation mentions what it does not read, the name of a struct. So the
outcomes on both sides coincide but for that name (`Coincides`).
-/

namespace SettingsCompiler

namespace Info

/-- The attributes are the same but for those that documentation alone shows. -/
def DiffersInDocs (i j : Info) : Prop :=
  ∃ docComment expert version, j = { i with docComment, expert, version }

/-- The attributes are the same but for those that generated code alone shows. -/
def DiffersInCode (i j : Info) : Prop :=
  ∃ target comment structName ident, j = { i with target, comment, structName, ident }

end Info

namespace Setting

open Header Docs

/-! ## Trees with other attributes -/

/-- The second tree is the first with other attributes, which `R` relates to those of the first
at every place. -/
inductive Alike (R : Info → Info → Prop) : Setting → Setting → Prop
  | leaf {i j : Info} {value : Value} : R i j → Alike R (leaf i value) (leaf j value)
  | group {i j : Info} {cs ds : List Setting} : R i j → List.Forall₂ (Alike R) cs ds →
      Alike R (group i cs) (group j ds)

section

variable {R : Info → Info → Prop} {a b : Setting} {cs ds : List Setting}

theorem Alike.info (h : Alike R a b) : R a.info b.info := by
  cases h with
  | leaf hinfo => exact hinfo
  | group hinfo _ => exact hinfo

/-- Of two alike settings of one kind both have children or neither has. -/
theorem Alike.fields (h : Alike R a b) (hkind : b.info.kind = a.info.kind) :
    (∃ cs ds, List.Forall₂ (Alike R) cs ds ∧ a.fields = .ok cs ∧ b.fields = .ok ds) ∨
      a.fields = .error a.dangling ∧ b.fields = .error b.dangling := by
  cases h with
  | leaf => exact .inr ⟨rfl, rfl⟩
  | @group i j cs ds _ hall =>
    have hkind : j.kind = i.kind := hkind
    rw [Setting.fields, Setting.fields, hkind]
    cases i.kind.isComposite with
    | true => exact .inl ⟨cs, ds, hall, rfl, rfl⟩
    | false => exact .inr ⟨rfl, rfl⟩

/-- What holds of alike leaves, and of alike groups if it holds of each two children at the same
position, holds of alike trees. -/
@[elab_as_elim]
theorem Alike.induct {P : Setting → Setting → Prop}
    (leaf : ∀ {i j : Info} {value : Value}, R i j → P (.leaf i value) (.leaf j value))
    (group : ∀ {i j : Info} {cs ds : List Setting}, R i j →
      List.Forall₂ (fun c d => Alike R c d ∧ P c d) cs ds → P (.group i cs) (.group j ds))
    (h : Alike R a b) : P a b :=
  -- The second motive carries the induction through a list of children.
  @Alike.rec R (fun a b _ => P a b)
    (fun cs ds _ => List.Forall₂ (fun c d => Alike R c d ∧ P c d) cs ds)
    leaf (fun hinfo _ hall => group hinfo hall) .nil (fun hc _ hP hall => .cons ⟨hc, hP⟩ hall)
    a b h

/-- What settings contribute to a list is the same if it is so for alike ones. -/
theorem flatMap_of_alike {α : Type} {f : Setting → List α}
    (hf : ∀ {a b}, Alike R a b → f b = f a) (h : List.Forall₂ (Alike R) cs ds) :
    ds.flatMap f = cs.flatMap f := by
  induction h with
  | nil => rfl
  | cons hab _ ih => rw [List.flatMap_cons, List.flatMap_cons, hf hab, ih]

end

/-! ## Headers -/

section

variable {i j : Info} {a b : Setting} {cs ds : List Setting}

theorem ownsStruct_of_alike (h : Alike Info.DiffersInDocs a b) : b.ownsStruct = a.ownsStruct := by
  obtain ⟨_, _, _, heq⟩ := h.info
  rw [ownsStruct, ownsStruct, heq]

theorem memberIdents_of_alike (h : Alike Info.DiffersInDocs a b) :
    b.memberIdents = a.memberIdents := by
  obtain ⟨_, _, _, heq⟩ := h.info
  rw [memberIdents, memberIdents, heq]

theorem membersOf_of_alike (h : Alike Info.DiffersInDocs a b) :
    membersOf b.info = membersOf a.info := by
  obtain ⟨_, _, _, heq⟩ := h.info
  rw [heq]
  rfl

theorem ofMember_of_alike (h : Alike Info.DiffersInDocs a b) :
    Row.ofMember b.info = Row.ofMember a.info := by
  obtain ⟨_, _, _, heq⟩ := h.info
  rw [heq]
  rfl

/-- The check of identifiers comes to the same for alike composites. -/
theorem checkIdentifiers_of_alike (h : Alike Info.DiffersInDocs a b) :
    b.checkIdentifiers = a.checkIdentifiers := by
  obtain ⟨_, _, _, heq⟩ := h.info
  rw [checkIdentifiers, checkIdentifiers]
  rcases h.fields (by rw [heq]) with ⟨cs, ds, hall, ha, hb⟩ | ⟨ha, hb⟩
  · have hidents : identsOf ds = identsOf cs :=
      flatMap_of_alike (fun {a b} hab => by
        obtain ⟨_, _, _, heq⟩ := hab.info
        rw [memberIdents_of_alike hab, heq]) hall
    rw [ha, hb]
    dsimp only
    rw [checkIdents, checkIdents, hidents, heq]
  · rw [ha, hb, dangling, dangling, heq]

/-- Alike composites have one definition. -/
theorem structDef_of_alike (hinfo : i.DiffersInDocs j)
    (hall : List.Forall₂ (Alike Info.DiffersInDocs) cs ds) :
    StructDef.of j ds = StructDef.of i cs := by
  obtain ⟨_, _, _, rfl⟩ := hinfo
  rw [StructDef.of, StructDef.of, flatMap_of_alike membersOf_of_alike hall]

/-- Where a setting has to have children but they are not looked at, the other will do. -/
theorem ofExcept_fields_of_alike {α : Type} (h : Alike Info.DiffersInDocs a b)
    (m : Registering Fault α) :
    (Registering.ofExcept b.fields >>= fun _ => m) =
      Registering.ofExcept a.fields >>= fun _ => m := by
  obtain ⟨_, _, _, heq⟩ := h.info
  rcases h.fields (by rw [heq]) with ⟨cs, ds, -, ha, hb⟩ | ⟨ha, hb⟩
  · rw [ha, hb]
    rfl
  · rw [ha, hb, dangling, dangling, heq]

/-- Alike settings have one literal, or one fault. -/
theorem encode_of_alike (h : Alike Info.DiffersInDocs a b) (table : Option String) :
    b.encode table = a.encode table := by
  obtain ⟨_, _, _, heq⟩ := h.info
  have hfields := h.fields (by rw [heq])
  cases h with
  | leaf hinfo =>
    obtain ⟨_, _, _, rfl⟩ := hinfo
    rfl
  | group hinfo _ =>
    obtain ⟨_, _, _, rfl⟩ := hinfo
    rcases hfields with ⟨cs, ds, -, ha, hb⟩ | ⟨ha, hb⟩
    · -- The literal names a table ; the children themselves are not in it.
      simp only [encode, ha, hb]
      cases table <;> rfl
    · simp only [encode, ha, hb]
      rfl

end

/-- The definitions for lists are the same if those for each two settings are. -/
theorem defineAll_of_alike {cs ds : List Setting}
    (h : List.Forall₂ (fun c d => Alike Info.DiffersInDocs c d ∧ d.define = c.define) cs ds) :
    defineAll ds = defineAll cs := by
  induction h with
  | nil => rfl
  | cons hc _ ih =>
    obtain ⟨hc, hown⟩ := hc
    obtain ⟨_, _, _, heq⟩ := hc.info
    rw [defineAll, defineAll, ih, hown, ofExcept_fields_of_alike hc, ownsStruct_of_alike hc, heq]

/-- The definitions for alike composites are the same, and so is what is registered for them. -/
theorem define_of_alike {a b : Setting} (h : Alike Info.DiffersInDocs a b) :
    b.define = a.define := by
  refine Alike.induct ?leaf ?group h
  case leaf =>
    rintro i j value ⟨_, _, _, rfl⟩
    rfl
  case group =>
    intro i j cs ds hinfo hall
    have halike := hall.imp fun _ _ hc => hc.1
    rw [define, define, checkIdentifiers_of_alike (.group hinfo halike), defineAll_of_alike hall,
      structDef_of_alike hinfo halike]

/-- The tables for lists are the same if those for each two settings are. -/
theorem tabulateAll_of_alike {cs ds : List Setting}
    (h : List.Forall₂ (fun c d => Alike Info.DiffersInDocs c d ∧ d.tabulate = c.tabulate) cs ds) :
    ∀ index, tabulateAll index ds = tabulateAll index cs := by
  induction h with
  | nil => exact fun _ => rfl
  | cons hc _ ih =>
    intro index
    obtain ⟨hc, hown⟩ := hc
    obtain ⟨_, _, _, heq⟩ := hc.info
    simp only [tabulateAll, ih, hown, ofMember_of_alike hc, encode_of_alike hc, isComment]
    rw [heq]

/-- The tables for alike composites are the same, and so is what is registered for them. -/
theorem tabulate_of_alike {a b : Setting} (h : Alike Info.DiffersInDocs a b) :
    b.tabulate = a.tabulate := by
  refine Alike.induct ?leaf ?group h
  case leaf =>
    rintro i j value ⟨_, _, _, rfl⟩
    rfl
  case group =>
    intro i j cs ds hinfo hall
    have halike := hall.imp fun _ _ hc => hc.1
    have hfields (m : Registering Fault (List Table × TableName)) :=
      ofExcept_fields_of_alike (.group hinfo halike) m
    obtain ⟨_, _, _, rfl⟩ := hinfo
    simp only [tabulate, hfields, tabulateAll_of_alike hall]

section

variable {a b : Setting}

theorem structDefs_of_alike (h : Alike Info.DiffersInDocs a b) : b.structDefs = a.structDefs := by
  obtain ⟨_, _, _, heq⟩ := h.info
  rw [structDefs, structDefs, define_of_alike h, heq]

theorem tables_of_alike (h : Alike Info.DiffersInDocs a b) : b.tables = a.tables := by
  obtain ⟨_, _, _, heq⟩ := h.info
  rw [tables, tables, tabulate_of_alike h, heq]

end

/-- Alike roots have one header, or one fault, from every pair of registries. -/
theorem compileFrom_of_alike {roots roots' : List Setting}
    (h : List.Forall₂ (Alike Info.DiffersInDocs) roots roots') :
    ∀ rs, compileFrom rs roots' = compileFrom rs roots := by
  induction h with
  | nil => exact fun _ => rfl
  | cons hroot _ ih =>
    intro rs
    simp only [compileFrom, structDefs_of_alike hroot, tables_of_alike hroot, ih]

/-! ## Documentation -/

/-- Two outcomes are the same, or both are the fault of a composite without children, which has
one name on both sides but may have another struct. -/
inductive Coincides {α : Type} : Except Fault α → Except Fault α → Prop
  | same (outcome : Except Fault α) : Coincides outcome outcome
  | dangling (field s t : String) :
      Coincides (.error (.danglingStruct field s)) (.error (.danglingStruct field t))

namespace Coincides

variable {α β γ : Type} {x y : Except Fault α} {x' y' : Except Fault β}

/-- What is done with a result is done on both sides. -/
theorem map (h : Coincides x y) (f : α → β) : Coincides (x.map f) (y.map f) := by
  cases h with
  | same => exact .same _
  | dangling => exact .dangling _ _ _

/-- Of two computations the first is asked first. -/
theorem both (h : Coincides x y) (h' : Coincides x' y') (f : α → β → γ) :
    Coincides (x.bind fun a => x'.map (f a)) (y.bind fun a => y'.map (f a)) := by
  cases h with
  | same =>
    cases x with
    | error => exact .same _
    | ok a => exact h'.map (f a)
  | dangling => exact .dangling _ _ _

end Coincides

section

variable {a b : Setting} {cs ds : List Setting}

theorem mismatch_of_alike (h : Alike Info.DiffersInCode a b) : b.mismatch = a.mismatch := by
  obtain ⟨_, _, _, _, heq⟩ := h.info
  rw [mismatch, mismatch, heq]

theorem isDocumented_of_alike (h : Alike Info.DiffersInCode a b) :
    b.isDocumented = a.isDocumented := by
  obtain ⟨_, _, _, _, heq⟩ := h.info
  rw [isDocumented, isDocumented, isComment, isComment, heq]

theorem commentChunks_of_alike (h : Alike Info.DiffersInCode a b) (depth : Nat) (path : String) :
    commentChunks depth path b = commentChunks depth path a := by
  obtain ⟨_, _, _, _, heq⟩ := h.info
  rw [commentChunks, commentChunks, docText, docText, heq]

theorem defaultText_of_alike (h : Alike Info.DiffersInCode a b) :
    b.defaultText = a.defaultText := by
  have hmismatch := mismatch_of_alike h
  cases h with
  | leaf => rfl
  | group => rw [defaultText, defaultText, hmismatch]

theorem shownDefaults_of_alike (h : List.Forall₂ (Alike Info.DiffersInCode) cs ds) :
    shownDefaults ds = shownDefaults cs := by
  induction h with
  | nil => rfl
  | cons hc _ ih =>
    rw [shownDefaults, shownDefaults, isDocumented_of_alike hc, defaultText_of_alike hc, ih]

/-- The line of a compact setting coincides with that of an alike one. -/
theorem compactText_of_alike (h : Alike Info.DiffersInCode a b) :
    Coincides a.compactText b.compactText := by
  obtain ⟨_, _, _, _, heq⟩ := h.info
  rw [compactText, compactText]
  rcases h.fields (by rw [heq]) with ⟨cs, ds, hall, ha, hb⟩ | ⟨ha, hb⟩
  · rw [ha, hb]
    dsimp only
    rw [shownDefaults_of_alike hall]
    exact .same _
  · rw [ha, hb, Setting.dangling, Setting.dangling, heq]
    exact .dangling _ _ _

end

/-- The chunks of two settings coincide at every place. -/
def BodiesCoincide (a b : Setting) : Prop :=
  ∀ depth path, Coincides (bodyChunks depth path a) (bodyChunks depth path b)

/-- The chunks of lists coincide if those of each two settings do : groups begin and end at the
same places. -/
theorem listChunks_of_alike {cs ds : List Setting}
    (h : List.Forall₂ (fun c d => Alike Info.DiffersInCode c d ∧ BodiesCoincide c d) cs ds)
    (depth : Nat) (path : String) : ∀ expert,
      Coincides (listChunks depth path expert cs) (listChunks depth path expert ds) := by
  induction h with
  | nil => exact fun _ => .same _
  | @cons c d _ _ hc _ ih =>
    intro expert
    obtain ⟨hc, hbody⟩ := hc
    have hdoc := isDocumented_of_alike hc
    cases hshown : c.isDocumented with
    | false =>
      rw [listChunks, listChunks, hdoc, hshown]
      exact ih expert
    | true =>
      obtain ⟨_, _, _, _, heq⟩ := hc.info
      rw [listChunks_cons hshown, listChunks_cons (hdoc.trans hshown)]
      simp only [commentChunks_of_alike hc, heq]
      exact (hbody depth (childPath path c.info.name)).both (ih c.info.expert) _

theorem bodyChunks_of_compact {info : Info} (h : info.kind = .compact) (cs : List Setting)
    (depth : Nat) (path : String) : bodyChunks depth path (group info cs) =
      (group info cs).compactText.map fun text => [.value depth info.name text] := by
  rw [bodyChunks, h]
  cases (group info cs).compactText <;> rfl

/-- The chunks of alike settings coincide, by induction on both trees at once. -/
theorem bodiesCoincide_of_alike {a b : Setting} (h : Alike Info.DiffersInCode a b) :
    BodiesCoincide a b := by
  refine Alike.induct ?leaf ?group h
  case leaf =>
    rintro i j value ⟨_, _, _, _, rfl⟩ depth path
    rw [bodyChunks, bodyChunks]
    cases i.kind with
    | struct | array | compact => exact .dangling _ _ _
    | _ => exact .same _
  case group =>
    intro i j cs ds hinfo hall depth path
    have halike := Alike.group hinfo (hall.imp fun _ _ hc => hc.1)
    have hinside := listChunks_of_alike hall (depth + (group i cs).levels) path false
    have hline := compactText_of_alike halike
    have hmismatch := mismatch_of_alike halike
    obtain ⟨_, _, _, _, rfl⟩ := hinfo
    cases hblock : (group i cs).isBlock with
    | true =>
      rw [bodyChunks_of_isBlock hblock, bodyChunks_of_isBlock (by exact hblock)]
      exact hinside.map _
    | false =>
      by_cases hcompact : i.kind = .compact
      · rw [bodyChunks_of_compact hcompact, bodyChunks_of_compact (by exact hcompact)]
        exact hline.map _
      · rw [bodyChunks, bodyChunks, hmismatch]
        cases hkind : i.kind with
        | struct | array => simp [isBlock, hkind] at hblock
        | compact => exact absurd hkind hcompact
        | _ => exact .same _

/-- The outlines of alike roots coincide. -/
theorem outline_of_alike {a b : Setting} (h : Alike Info.DiffersInCode a b) :
    Coincides a.outline b.outline := by
  obtain ⟨_, _, _, _, heq⟩ := h.info
  rw [outline, outline]
  rcases h.fields (by rw [heq]) with ⟨cs, ds, hall, ha, hb⟩ | ⟨ha, hb⟩
  · rw [ha, hb]
    have hall := hall.imp fun _ _ hc => And.intro hc (bodiesCoincide_of_alike hc)
    exact listChunks_of_alike hall 0 "" false
  · rw [ha, hb, Setting.dangling, Setting.dangling, heq]
    exact .dangling _ _ _

/-- So does the documentation of alike roots, in either style and at every width. -/
theorem render_of_alike {a b : Setting} (h : Alike Info.DiffersInCode a b) (style : Style)
    (width : Nat) : Coincides (render style width a) (render style width b) :=
  (outline_of_alike h).map (renderChunks style width)

/-! ## Both backends -/

/-- The header of a list of roots, or its fault, does not depend on what documentation alone
shows of them ; and the documentation of a root, or that there is none, does not depend on what
generated code alone shows of it. -/
theorem readsOwnAttributes :
    (∀ roots roots' : List Setting, List.Forall₂ (Alike Info.DiffersInDocs) roots roots' →
      Header.compile roots' = Header.compile roots) ∧
    ∀ root root' : Setting, Alike Info.DiffersInCode root root' → ∀ width,
      Coincides (renderText width root) (renderText width root') ∧
        Coincides (renderHtml width root) (renderHtml width root') := by
  refine ⟨fun roots roots' h => compileFrom_of_alike h .empty, fun root root' h width => ?_⟩
  exact ⟨render_of_alike h .plain width, render_of_alike h .html width⟩

/-- A setting of each sort : a comment entry, a color, a line of margins and an array. -/
def binder : Setting :=
  .makeGroup "Binder" .struct [
    .make "" .comment .null "bound by hand",
    .make "Ink" .color (.text "#000") "color of the ink",
    .makeGroup "Margin" .compact [.make "Top" .int (.int 2) "space above"] "margins",
    .makeGroup "Tabs" .array [.make "Label" .string .null "label of the tab"] "tabs"] ""

/-- `binder` with other words for its readers. -/
def annotated : Setting :=
  .makeGroup "Binder" .struct [
    (Setting.make "" .comment .null "bound by hand").withDoc "sewn",
    ((Setting.make "Ink" .color (.text "#000") "color of the ink").withVersion "3.0").asExpert,
    (Setting.makeGroup "Margin" .compact
      [(Setting.make "Top" .int (.int 2) "space above").asExpert] "margins").withDoc "white space",
    .makeGroup "Tabs" .array
      [(Setting.make "Label" .string .null "label of the tab").withVersion "3.1"] "tabs"] ""

/-- `binder` with other words for the compiler. -/
def renamed : Setting :=
  .makeGroup "Binder" .struct [
    (Setting.make "" .comment .null "bound by hand").mapInfo fun i => { i with comment := "glued" },
    (Setting.make "Ink" .color (.text "#000") "color of the ink").mapInfo fun i =>
      { i with ident := "pen" },
    (Setting.makeGroup "Margin" .compact [.make "Top" .int (.int 2) "space above"]
      "margins").withStructName "Edge",
    .makeGroup "Tabs" .array [(Setting.make "Label" .string .null "label of the tab").mapInfo
      fun i => { i with target := "Str", comment := "" }] "tabs"] ""

/-- Other words for readers leave the header of `binder` as it is, and other words for the
compiler its documentation. -/
theorem readsOwnAttributes_binder :
    (List.Forall₂ (Alike Info.DiffersInDocs) [binder] [annotated] ∧
      ∃ h, Header.compile [binder] = .ok h ∧ Header.compile [annotated] = .ok h) ∧
    Alike Info.DiffersInCode binder renamed ∧
      ∃ text, renderText 80 binder = .ok text ∧ Coincides (.ok text) (renderText 80 renamed) := by
  have hdocs : List.Forall₂ (Alike Info.DiffersInDocs) [binder] [annotated] :=
    .cons (.group ⟨_, _, _, rfl⟩ <|
      .cons (.leaf ⟨_, _, _, rfl⟩) <| .cons (.leaf ⟨_, _, _, rfl⟩) <|
      .cons (.group ⟨_, _, _, rfl⟩ (.cons (.leaf ⟨_, _, _, rfl⟩) .nil)) <|
      .cons (.group ⟨_, _, _, rfl⟩ (.cons (.leaf ⟨_, _, _, rfl⟩) .nil)) .nil) .nil
  have hcode : Alike Info.DiffersInCode binder renamed :=
    .group ⟨_, _, _, _, rfl⟩ <|
      .cons (.leaf ⟨_, _, _, _, rfl⟩) <| .cons (.leaf ⟨_, _, _, _, rfl⟩) <|
      .cons (.group ⟨_, _, _, _, rfl⟩ (.cons (.leaf ⟨_, _, _, _, rfl⟩) .nil)) <|
      .cons (.group ⟨_, _, _, _, rfl⟩ (.cons (.leaf ⟨_, _, _, _, rfl⟩) .nil)) .nil
  refine ⟨⟨hdocs, _, rfl, readsOwnAttributes.1 _ _ hdocs⟩, hcode, _, rfl, ?_⟩
  exact (readsOwnAttributes.2 _ _ hcode 80).1

/-- Without documentation, the fault can be of another struct. -/
example (width : Nat) :
    renderText width (.makeGroup "Binder" .struct [.make "Margin" .compact .null ""] "") =
        .error (.danglingStruct "Margin" "Margin") ∧
      renderText width (.makeGroup "Binder" .struct
          [(Setting.make "Margin" .compact .null "").withStructName "Edge"] "") =
        .error (.danglingStruct "Margin" "Edge") := ⟨rfl, rfl⟩

end Setting
end SettingsCompiler
