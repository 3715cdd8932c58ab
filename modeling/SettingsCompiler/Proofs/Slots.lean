import SettingsCompiler.Docs.Outline
import SettingsCompiler.Proofs.Site
import Mathlib.Data.List.Forall2
import Mathlib.Data.List.Infix

/-!
# The slots of a compact line

A compact setting is documented on one line, the defaults of its documented settings with
spaces between them. What stands between the spaces are the slots of the line (`slots`). An
empty default gets no slot (`shownDefaults_of_defaultTexts`), so the slots are the defaults that
are not empty, in order, as long as none of them holds a space (`slots_joinWith`).

A reader who counts slots finds each default in its place exactly if no empty default stands in
front of one that is not empty (`filter_prefix_iff`). `fillsSlots` puts this together, and
`not_slots_prefix_gap` is about a line on which a default moved to the place of another.
-/

namespace SettingsCompiler

open Text Docs

/-! ## Slots of a line -/

/-- What stands between the spaces of a line. -/
def slots (line : String) : List String :=
  (pieces (· = ' ') line.toList).map String.ofList

theorem ne_of_space_not_mem {cs : List Char} (h : ' ' ∉ cs) :
    ∀ c ∈ cs, decide (c = ' ') = false := fun _ hc =>
  decide_eq_false fun hspace => h (hspace ▸ hc)

/-- Strings without spaces are what stands between the spaces they are joined with. -/
theorem pieces_joinWith : ∀ {ss : List String}, ss ≠ [] → (∀ s ∈ ss, ' ' ∉ s.toList) →
    pieces (· = ' ') (joinWith " " ss).toList = ss.map String.toList
  | [s], _, h => by
    rw [joinWith, pieces_of_forall (ne_of_space_not_mem (h s List.mem_cons_self))]
    rfl
  | s :: t :: ss, _, h => by
    obtain ⟨hs, hrest⟩ := List.forall_mem_cons.mp h
    have htext : (joinWith " " (s :: t :: ss)).toList =
        s.toList ++ ' ' :: (joinWith " " (t :: ss)).toList := by simp [joinWith]
    rw [htext, pieces_append_cons (ne_of_space_not_mem hs) (decide_eq_true rfl),
      pieces_joinWith (List.cons_ne_nil t ss) hrest]
    rfl

/-- Strings without spaces are the slots of the line that they are joined to. -/
theorem slots_joinWith {ss : List String} (hne : ss ≠ []) (h : ∀ s ∈ ss, ' ' ∉ s.toList) :
    slots (joinWith " " ss) = ss := by
  rw [slots, pieces_joinWith hne h, List.map_map]
  exact List.map_id'' (fun s => String.ofList_toList) ss

/-! ## Texts that are left out -/

/-- Empty texts stand behind all others. -/
abbrev EmptyLast (texts : List String) : Prop :=
  texts.Pairwise fun a b => a = "" → b = ""

/-- What remains when empty texts are left out is in its place exactly if they come last. -/
theorem filter_prefix_iff : ∀ {texts : List String},
    texts.filter (· ≠ "") <+: texts ↔ EmptyLast texts
  | [] => by simp
  | t :: texts => by
    have ih : texts.filter (· ≠ "") <+: texts ↔ EmptyLast texts := filter_prefix_iff
    rw [EmptyLast, List.pairwise_cons]
    by_cases ht : t = ""
    · subst ht
      have hskip : ("" :: texts).filter (· ≠ "") = texts.filter (· ≠ "") := by simp
      rw [hskip, List.prefix_cons_iff]
      constructor
      · rintro (hnil | ⟨more, hmore, -⟩)
        · have hall : ∀ b ∈ texts, b = "" := by simpa using hnil
          exact ⟨fun b hb _ => hall b hb, List.pairwise_of_forall_mem_list fun _ _ b hb _ => hall b hb⟩
        · have hmem : "" ∈ texts.filter (· ≠ "") := hmore ▸ List.mem_cons_self
          simp at hmem
      · rintro ⟨hall, -⟩
        exact .inl (by simpa using fun b hb => hall b hb rfl)
    · have hkeep : (t :: texts).filter (· ≠ "") = t :: texts.filter (· ≠ "") := by simp [ht]
      rw [hkeep, List.cons_prefix_cons, ih]
      simp [ht]

/-- The line that shows texts : those that are not empty, with spaces between them. -/
def lineOf (texts : List String) : String :=
  joinWith " " (texts.filter (· ≠ ""))

section

variable {texts : List String}

theorem slots_lineOf (hsolid : ∀ t ∈ texts, ' ' ∉ t.toList) (hsome : ∃ t ∈ texts, t ≠ "") :
    slots (lineOf texts) = texts.filter (· ≠ "") := by
  refine slots_joinWith ?_ fun t ht => hsolid t (List.mem_of_mem_filter ht)
  simpa using hsome

/-- An empty line has one slot. -/
theorem slots_lineOf_of_forall_eq (hempty : ∀ t ∈ texts, t = "") :
    slots (lineOf texts) = [""] := by
  have hnone : texts.filter (· ≠ "") = [] := by simpa using hempty
  rw [lineOf, hnone]
  rfl

/-- The slots are the first texts in order exactly if the empty ones come last. -/
theorem slots_lineOf_prefix_iff (hne : texts ≠ []) (hsolid : ∀ t ∈ texts, ' ' ∉ t.toList) :
    slots (lineOf texts) <+: texts ↔ EmptyLast texts := by
  by_cases hempty : ∀ t ∈ texts, t = ""
  · rw [slots_lineOf_of_forall_eq hempty]
    obtain ⟨t, rest, rfl⟩ := List.exists_cons_of_ne_nil hne
    obtain rfl := hempty t List.mem_cons_self
    exact iff_of_true ⟨rest, rfl⟩
      (List.pairwise_of_forall_mem_list fun _ _ b hb _ => hempty b hb)
  · rw [slots_lineOf hsolid (by simpa using hempty), filter_prefix_iff]

/-- There is one slot for each text exactly if no text is empty or there is just one. -/
theorem slots_lineOf_eq_iff (hne : texts ≠ []) (hsolid : ∀ t ∈ texts, ' ' ∉ t.toList) :
    slots (lineOf texts) = texts ↔ (∀ t ∈ texts, t ≠ "") ∨ texts.length = 1 := by
  by_cases hempty : ∀ t ∈ texts, t = ""
  · rw [slots_lineOf_of_forall_eq hempty]
    obtain ⟨t, rest, rfl⟩ := List.exists_cons_of_ne_nil hne
    obtain rfl := hempty t List.mem_cons_self
    simp [eq_comm]
  · obtain ⟨t, ht, htext⟩ : ∃ t ∈ texts, t ≠ "" := by simpa using hempty
    rw [slots_lineOf hsolid ⟨t, ht, htext⟩, List.filter_eq_self]
    simp only [decide_eq_true_eq]
    refine ⟨.inl, fun h => h.elim id fun hone => ?_⟩
    obtain ⟨u, rfl⟩ := List.length_eq_one_iff.mp hone
    obtain rfl := List.mem_singleton.mp ht
    simpa using htext

end

namespace Setting

/-- The defaults of the documented settings of a list, as texts. -/
abbrev DefaultTexts (cs : List Setting) (texts : List String) : Prop :=
  List.Forall₂ (fun c t => c.defaultText = .ok t) (cs.filter isDocumented) texts

/-- A line shows the defaults that are not empty. -/
theorem shownDefaults_of_defaultTexts : ∀ {cs : List Setting} {texts : List String},
    DefaultTexts cs texts → shownDefaults cs = .ok (texts.filter (· ≠ ""))
  | [], texts, h => by
    obtain rfl : texts = [] := by simpa [DefaultTexts] using h
    rfl
  | c :: cs, texts, h => by
    rw [shownDefaults]
    cases hdoc : c.isDocumented with
    | false =>
      rw [DefaultTexts, List.filter_cons_of_neg (by simp [hdoc])] at h
      rw [if_neg Bool.false_ne_true]
      exact shownDefaults_of_defaultTexts h
    | true =>
      rw [DefaultTexts, List.filter_cons_of_pos hdoc, List.forall₂_cons_left_iff] at h
      obtain ⟨t, texts, ht, hrest, rfl⟩ := h
      rw [if_pos rfl, ht, shownDefaults_of_defaultTexts hrest, List.filter_cons]
      by_cases hempty : t = "" <;> simp [hempty]

/-- What the line of a compact setting shows of the defaults of its documented settings, none of
which holds a space. Its slots are the defaults that are not empty, in order ; if all are empty,
so is the line, and it has one empty slot. Each slot holds the default in its place exactly if no
empty default stands in front of another ; all defaults have their slots exactly if none is
empty or there is only one. -/
structure FillsSlots (s : Setting) (texts : List String) (line : String) : Prop where
  compact : s.compactText = .ok line
  documented : ∀ depth path, s.bodyChunks depth path = .ok [.value depth s.info.name line]
  filled : (∃ t ∈ texts, t ≠ "") → slots line = texts.filter (· ≠ "")
  blank : (∀ t ∈ texts, t = "") → slots line = [""]
  placed : slots line <+: texts ↔ EmptyLast texts
  complete : slots line = texts ↔ (∀ t ∈ texts, t ≠ "") ∨ texts.length = 1

/-- A compact setting whose defaults have no spaces shows those that are not empty, one in each
slot. So a default stands in its own slot unless an empty one in front of it has none. -/
theorem fillsSlots {info : Info} {cs : List Setting} {texts : List String}
    (hkind : info.kind = .compact) (htexts : DefaultTexts cs texts) (hne : texts ≠ [])
    (hsolid : ∀ t ∈ texts, ' ' ∉ t.toList) :
    ∃ line, FillsSlots (group info cs) texts line := by
  have hcompact : (group info cs).compactText = .ok (lineOf texts) := by
    simp only [compactText, fields, hkind, Kind.isComposite, if_true,
      shownDefaults_of_defaultTexts htexts, Except.map, lineOf]
  refine ⟨lineOf texts, hcompact, fun depth path => ?_, slots_lineOf hsolid,
    slots_lineOf_of_forall_eq, slots_lineOf_prefix_iff hne hsolid, slots_lineOf_eq_iff hne hsolid⟩
  rw [bodyChunks, hkind]
  simp only [hcompact]
  rfl

/-- A compact setting that shows three defaults, the first of them empty. -/
def gap : Setting :=
  .makeGroup "Margin" .compact [.make "Top" .int .null "", .make "Left" .int (.int 4) "",
    .make "Shade" .color (.text "#fff") ""] ""

theorem defaultTexts_gap : DefaultTexts gap.children ["", "4", "#fff"] :=
  .cons rfl (.cons rfl (.cons rfl .nil))

/-- The line of `gap` has two slots for three defaults. -/
theorem fillsSlots_gap : gap.info.kind = .compact ∧ DefaultTexts gap.children ["", "4", "#fff"] ∧
    ["", "4", "#fff"] ≠ [] ∧ (∀ t ∈ ["", "4", "#fff"], ' ' ∉ t.toList) ∧
    ∃ line, FillsSlots gap ["", "4", "#fff"] line := by
  have hsolid : ∀ t ∈ ["", "4", "#fff"], ' ' ∉ t.toList := by decide
  exact ⟨rfl, defaultTexts_gap, by decide, hsolid,
    fillsSlots rfl defaultTexts_gap (by decide) hsolid⟩

/-- The slots of a line are not the defaults, and the first shows the second default. -/
theorem not_slots_prefix_gap : DefaultTexts gap.children ["", "4", "#fff"] ∧
    (∀ t ∈ ["", "4", "#fff"], ' ' ∉ t.toList) ∧ ∃ line, gap.compactText = .ok line ∧
      slots line ≠ ["", "4", "#fff"] ∧ ¬slots line <+: ["", "4", "#fff"] ∧
      (slots line)[0]? = ["", "4", "#fff"][1]? :=
  ⟨defaultTexts_gap, by decide, "4 #fff", rfl, by decide, by decide, by decide⟩

end Setting

end SettingsCompiler
