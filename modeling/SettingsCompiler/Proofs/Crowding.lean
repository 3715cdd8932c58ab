import SettingsCompiler.Proofs.Nesting
import SettingsCompiler.Proofs.Tabulation

/-!
# What cannot be documented

The line of a compact setting has no room for a composite. Where a root has tables, this is all
that can be wrong with its documentation : the tables ask every composite for its children and
every other setting for a default of its kind, and documentation asks for no more, but for a
plain default of each setting on a line.

`crowding` lists the composites on such lines, in document order. The walk goes through the
settings in this order and stops at the first of them (`FirstFault`, `firstFault_listChunks`), so
documentation fails iff there is one, with its fault, in either style and at every width
(`showsUnlessCrowded`).
-/

namespace SettingsCompiler.Setting

open Docs Header

/-! ## Crowded lines -/

/-- The composites that a compact setting has on its line. -/
def crowdedBy (s : Setting) : List Setting :=
  if s.info.kind = .compact then s.children.filter isTabled else []

/-- The composites on the lines of settings that are shown, in document order. -/
def crowdingOf (ps : List Placed) : List Setting :=
  ps.flatMap fun p => p.setting.crowdedBy

/-- The composites on the lines of the documentation of a root, in document order. -/
def crowding (root : Setting) : List Setting :=
  crowdingOf root.shown

@[simp] theorem crowdedBy_leaf (info : Info) (value : Value) : (leaf info value).crowdedBy = [] := by
  rw [crowdedBy]
  split <;> rfl

theorem crowdingOf_append (ps ps' : List Placed) :
    crowdingOf (ps ++ ps') = crowdingOf ps ++ crowdingOf ps' :=
  List.flatMap_append

theorem crowdingOf_cons (p : Placed) (ps : List Placed) :
    crowdingOf (p :: ps) = p.setting.crowdedBy ++ crowdingOf ps :=
  List.flatMap_cons

/-- A composite crowds a line if it is a visible one in the list of a compact setting that is
shown. -/
theorem mem_crowding_iff {root c : Setting} :
    c ∈ root.crowding ↔ ∃ x, IsShownIn root x ∧ x.info.kind = .compact ∧ c ∈ x.children ∧
      c.info.internal = false ∧ c.info.kind.isComposite = true := by
  have hmem (x : Setting) : c ∈ x.crowdedBy ↔ x.info.kind = .compact ∧ c ∈ x.children ∧
      c.info.internal = false ∧ c.info.kind.isComposite = true := by
    rw [crowdedBy]
    split
    · next hkind => simp [hkind, isTabled]
    · next hkind => simp [hkind]
  simp only [crowding, crowdingOf, List.mem_flatMap, hmem]
  constructor
  · rintro ⟨p, hp, h⟩
    exact ⟨p.setting, mem_shownAllFrom_iff.mp ⟨p, hp, rfl⟩, h⟩
  · rintro ⟨x, hx, h⟩
    have hshown : ∃ p ∈ root.shown, p.setting = x := mem_shownAllFrom_iff.mpr hx
    obtain ⟨p, hp, rfl⟩ := hshown
    exact ⟨p, hp, h⟩

/-! ## The first fault -/

/-- There is a result if the list is empty, and otherwise the fault that the first setting of it
does not fit. -/
inductive FirstFault {α : Type} : List Setting → Except Fault α → Prop
  | ok {a : α} : FirstFault [] (.ok a)
  | error {c : Setting} {cs : List Setting} : FirstFault (c :: cs) (.error c.mismatch)

namespace FirstFault

variable {α β γ : Type} {cs cs' : List Setting} {x : Except Fault α} {y : Except Fault β}

theorem map (h : FirstFault cs x) (f : α → β) : FirstFault cs (x.map f) := by
  cases h with
  | ok => exact .ok
  | error => exact .error

/-- Of two computations the first is asked first. -/
theorem both (h : FirstFault cs x) (h' : FirstFault cs' y) (f : α → β → γ) :
    FirstFault (cs ++ cs') (x.bind fun a => y.map (f a)) := by
  cases h with
  | ok => exact h'.map _
  | error => exact .error

/-- There is a result exactly if no setting is to blame. -/
theorem exists_ok_iff (h : FirstFault cs x) : (∃ a, x = .ok a) ↔ cs = [] := by
  cases h <;> simp

/-- The fault is that of the first setting to blame. -/
theorem eq_error (h : FirstFault cs x) {c : Setting} {rest : List Setting}
    (hcs : cs = c :: rest) : x = .error c.mismatch := by
  cases h with
  | ok => cases hcs
  | error =>
    obtain ⟨rfl, -⟩ := List.cons.inj hcs
    rfl

end FirstFault

/-! ## The walk over a tree with tables -/

/-- A setting that is no composite and has a literal is a leaf. -/
theorem exists_leaf_of_encode {c : Setting} {table : Option String} {l : Literal}
    (hcom : c.isComment = false) (hcomp : c.info.kind.isComposite = false)
    (hl : c.encode table = .ok l) : ∃ value, c = leaf c.info value := by
  cases c with
  | leaf info value => exact ⟨value, rfl⟩
  | group info cs =>
    rw [info_group] at hcomp
    simp [encode, hcom, hcomp] at hl

theorem isDocumented_of_isTabled {c : Setting} (h : c.isTabled = true) :
    c.isDocumented = true := by
  have hcom := not_isComment_of_isTabled h
  rw [isTabled, Bool.and_eq_true] at h
  simp [isDocumented, hcom, h.1]

/-- A line asks for the plain defaults of its settings. -/
theorem firstFault_defaultText {c : Setting} (hdoc : c.isDocumented = true) {index : Nat}
    {r r' : Registry} {nested : List Table} {row : List Row}
    (h : Contributes c index r nested row r') :
    FirstFault (if c.isTabled then [c] else []) c.defaultText := by
  cases h with
  | comment hcom => simp [isDocumented, hcom] at hdoc
  | internal _ hint => simp [isDocumented, hint] at hdoc
  | composite _ htab hrun _ =>
    cases c with
    | leaf info value => exact absurd hrun tabulate_leaf_ne_ok
    | group info cs =>
      rw [if_pos htab]
      exact .error
  | plain hcom _ hcomp hl =>
    obtain ⟨value, hc⟩ := exists_leaf_of_encode hcom hcomp hl
    have htab : c.isTabled = false := by simp [isTabled, hcomp]
    rw [htab, hc]
    exact .ok

/-- The line of a list has the default of its first documented setting first. -/
theorem shownDefaults_cons {c : Setting} (hdoc : c.isDocumented = true) (cs : List Setting) :
    shownDefaults (c :: cs) = c.defaultText.bind fun text => (shownDefaults cs).map fun texts =>
      if text = "" then texts else text :: texts := by
  rw [shownDefaults, if_pos hdoc]
  cases c.defaultText with
  | error e => rfl
  | ok text => cases shownDefaults cs <;> rfl

/-- The line of a list that has rows fails at the first visible composite of the list. -/
theorem firstFault_shownDefaults : ∀ {cs : List Setting} {index : Nat} {r r' : Registry}
    {ts : List Table} {rows : List Row},
    (tabulateAll index cs).runFrom r = (.ok (ts, rows), r') →
    FirstFault (cs.filter isTabled) (shownDefaults cs)
  | [], _, _, _, _, _, _ => .ok
  | c :: cs, index, r, r', ts, rows, h => by
    obtain ⟨nested, row, r₁, ts₂, rows₂, hc, hcs, -, -⟩ := tabulateAll_cons_ok h
    have hrest := firstFault_shownDefaults hcs
    have hfilter : (c :: cs).filter isTabled =
        (if c.isTabled then [c] else []) ++ cs.filter isTabled := by
      rw [List.filter_cons]
      split <;> rfl
    rw [hfilter]
    cases hdoc : c.isDocumented with
    | true =>
      rw [shownDefaults_cons hdoc]
      exact (firstFault_defaultText hdoc hc).both hrest _
    | false =>
      have htab : c.isTabled = false := by
        by_contra htab
        simp [isDocumented_of_isTabled (by simpa using htab)] at hdoc
      rw [shownDefaults, hdoc, htab]
      exact hrest

/-- The chunks of a list are those of its first documented setting and those of the rest. -/
theorem listChunks_cons {c : Setting} (hdoc : c.isDocumented = true) (depth : Nat) (path : String)
    (expert : Bool) (cs : List Setting) :
    listChunks depth path expert (c :: cs) =
      (bodyChunks depth (childPath path c.info.name) c).bind fun body =>
        (listChunks depth path c.info.expert cs).map fun rest =>
          (if c.info.expert = expert then [] else [.boundary c.info.expert]) ++
            commentChunks depth (childPath path c.info.name) c ++ body ++ rest := by
  rw [listChunks, if_pos hdoc]
  dsimp only
  cases bodyChunks depth (childPath path c.info.name) c with
  | error e => rfl
  | ok body => cases listChunks depth path c.info.expert cs <;> rfl

/-- A setting that is no composite is a line, if it fits its kind. -/
theorem firstFault_bodyChunks_of_encode {c : Setting} {l : Literal} (hcom : c.isComment = false)
    (hcomp : c.info.kind.isComposite = false) (hl : c.encode none = .ok l) (around : List Setting)
    (depth : Nat) (path : String) :
    FirstFault (crowdingOf (c.shownFrom around)) (bodyChunks depth path c) := by
  obtain ⟨value, hc⟩ := exists_leaf_of_encode hcom hcomp hl
  generalize c.info = info at *
  subst hc
  have hnone : crowdingOf ((leaf info value).shownFrom around) = [] := by
    simp [shownFrom, crowdingOf]
  have hline : bodyChunks depth path (leaf info value) =
      .ok [.value depth info.name value.shown] := by
    rw [bodyChunks]
    cases hkind : info.kind <;> simp_all [isComment, Kind.isComposite]
  rw [hnone, hline]
  exact .ok

mutual

/-- The chunks of a composite with a table. -/
theorem firstFault_bodyChunks : ∀ {s : Setting} {r r' : Registry} {ts : List Table}
    {name : TableName} (around : List Setting) (depth : Nat) (path : String),
    s.isTabled = true → (tabulate s).runFrom r = (.ok (ts, name), r') →
    FirstFault (crowdingOf (s.shownFrom around)) (bodyChunks depth path s)
  | leaf info value, r, r', ts, name, around, depth, path, _, h => absurd h tabulate_leaf_ne_ok
  | group info cs, r, r', ts, name, around, depth, path, htab, h => by
    obtain ⟨tables, rows, hall, -, -⟩ := tabulate_group_ok h
    rw [shownFrom, crowdingOf_cons]
    cases hblock : (group info cs).isBlock with
    | true =>
      have hcrowd : (group info cs).crowdedBy = [] := by
        have hkind : info.kind ≠ .compact := by
          intro hkind
          simp [isBlock, hkind] at hblock
        exact if_neg hkind
      rw [hcrowd, bodyChunks_of_isBlock hblock]
      exact (firstFault_listChunks (group info cs :: around) _ path false hall).map _
    | false =>
      have hkind : info.kind = .compact := by
        rw [isTabled, Bool.and_eq_true] at htab
        cases hkind : info.kind <;> simp_all [isBlock, Kind.isComposite]
      have hcrowd : (group info cs).crowdedBy = cs.filter isTabled := by
        simp [crowdedBy, hkind, children]
      have hbody : bodyChunks depth path (group info cs) = (shownDefaults cs).map fun texts =>
          [.value depth info.name (Text.joinWith " " texts)] := by
        rw [bodyChunks, hkind]
        simp only [compactText, fields, hkind, Kind.isComposite, if_true]
        cases shownDefaults cs <;> rfl
      rw [hcrowd, hbody, crowdingOf, if_neg Bool.false_ne_true, List.flatMap_nil, List.append_nil]
      exact (firstFault_shownDefaults hall).map _

/-- The chunks of a list that has rows fail at the first composite on a line, in document
order. -/
theorem firstFault_listChunks : ∀ {cs : List Setting} {index : Nat} {r r' : Registry}
    {ts : List Table} {rows : List Row} (around : List Setting) (depth : Nat) (path : String)
    (expert : Bool), (tabulateAll index cs).runFrom r = (.ok (ts, rows), r') →
    FirstFault (crowdingOf (shownAllFrom around cs)) (listChunks depth path expert cs)
  | [], _, _, _, _, _, around, depth, path, expert, _ => by
    rw [listChunks]
    exact .ok
  | c :: cs, index, r, r', ts, rows, around, depth, path, expert, h => by
    obtain ⟨nested, row, r₁, ts₂, rows₂, hc, hcs, -, -⟩ := tabulateAll_cons_ok h
    rw [shownAllFrom, crowdingOf_append]
    cases hdoc : c.isDocumented with
    | false =>
      rw [listChunks, hdoc]
      exact firstFault_listChunks around depth path expert hcs
    | true =>
      have hbody : FirstFault (crowdingOf (c.shownFrom around))
          (bodyChunks depth (childPath path c.info.name) c) := by
        cases hc with
        | comment hcom => simp [isDocumented, hcom] at hdoc
        | internal _ hint => simp [isDocumented, hint] at hdoc
        | composite _ htab hrun _ => exact firstFault_bodyChunks around depth _ htab hrun
        | plain hcom _ hcomp hl =>
          exact firstFault_bodyChunks_of_encode hcom hcomp hl around depth _
      rw [listChunks_cons hdoc, if_pos rfl]
      exact hbody.both (firstFault_listChunks around depth path c.info.expert hcs) _

end

/-! ## Roots with tables -/

/-- The outline of a root with tables fails at the first composite on a line, and nowhere
else. -/
theorem firstFault_outline {root : Setting} {r r' : Registry} {ts : List Table}
    (h : root.tables.runFrom r = (.ok ts, r')) : FirstFault root.crowding root.outline := by
  have hkind : root.info.kind = .struct := (tables_ok h).1
  rw [tables, if_pos hkind] at h
  obtain ⟨⟨ts', name⟩, r₁, hrun, -⟩ := Registering.runFrom_bind_ok.mp h
  cases root with
  | leaf info value => exact absurd hrun tabulate_leaf_ne_ok
  | group info cs =>
    obtain ⟨tables, rows, hall, -, -⟩ := tabulate_group_ok hrun
    have hfields : (group info cs).fields = .ok cs := by
      rw [fields, show info.kind = .struct from hkind]
      rfl
    rw [outline, hfields]
    exact firstFault_listChunks [] 0 "" false hall

/-- A root can be documented, in each style and at every width, iff no line of a compact setting
shown has a visible composite on it. If there are any, both styles report the first of them in
document order. -/
structure ShowsUnlessCrowded (root : Setting) : Prop where
  crowded_iff : ∀ c, c ∈ root.crowding ↔ ∃ x, IsShownIn root x ∧ x.info.kind = .compact ∧
    c ∈ x.children ∧ c.info.internal = false ∧ c.info.kind.isComposite = true
  text_iff : ∀ width, (∃ text, renderText width root = .ok text) ↔ root.crowding = []
  html_iff : ∀ width, (∃ html, renderHtml width root = .ok html) ↔ root.crowding = []
  first : ∀ width c rest, root.crowding = c :: rest →
    renderText width root = .error (.defaultMismatch c.info.name c.info.kind) ∧
    renderHtml width root = .error (.defaultMismatch c.info.name c.info.kind)
  agree : ∀ width width' e, renderText width root = .error e ↔ renderHtml width' root = .error e

/-- Every root with tables can be documented unless some compact line is crowded, and then both
styles blame the same composite. -/
theorem showsUnlessCrowded {root : Setting} {r r' : Registry} {ts : List Table}
    (h : root.tables.runFrom r = (.ok ts, r')) : ShowsUnlessCrowded root := by
  have hrender (style : Style) (width : Nat) :
      FirstFault root.crowding (render style width root) :=
    (firstFault_outline h).map _
  refine ⟨fun _ => mem_crowding_iff, fun width => (hrender .plain width).exists_ok_iff,
    fun width => (hrender .html width).exists_ok_iff, fun width c rest hcs =>
    ⟨(hrender .plain width).eq_error hcs, (hrender .html width).eq_error hcs⟩, ?_⟩
  intro width width' e
  rw [renderText, renderHtml, Docs.render, Docs.render]
  cases root.outline with
  | ok chunks => simp [Except.map]
  | error e' => simp [Except.map]

/-- A compact setting inside an array, and one with composites on its line, the first of them
internal. -/
def drawer : Setting :=
  .makeGroup "Prefs" .struct [
    .makeGroup "Tabs" .array [.makeGroup "Pad" .compact [.make "Top" .int (.int 2) ""] ""] "",
    .makeGroup "Window" .compact [(Setting.makeGroup "Cache" .struct [] "").asInternal,
      .make "Left" .int (.int 4) "", .makeGroup "Size" .struct [.make "Dx" .int (.int 1) ""] "",
      .makeGroup "Inset" .compact [] ""] ""] ""

/-- The internal composite on the line of `drawer` is passed over, and the next one is blamed. -/
theorem showsUnlessCrowded_drawer :
    (∃ ts r, drawer.tables.runFrom .empty = (.ok ts, r)) ∧ ShowsUnlessCrowded drawer ∧
      drawer.crowding.map (fun c => c.info.name) = ["Size", "Inset"] ∧
      renderHtml 80 drawer = .error (.defaultMismatch "Size" .struct) := by
  have htables : drawer.tables.runFrom .empty = (.ok _, _) := rfl
  exact ⟨⟨_, _, htables⟩, showsUnlessCrowded htables, rfl, rfl⟩

end SettingsCompiler.Setting
