import SettingsCompiler.Workspace.Splice

/-!
# Splicing behind a marker line

A line stands in a text between what is in front of it, which is empty or ends in a line feed,
and what is behind it, which is empty unless the line ends in one (`LineIn`). These are the spans
that a splice looks at (`lineIn_of_lineSpans`, `LineIn.lineSpans_eq`), and what it keeps is the
text up to and including the first line that equals the marker (`handWritten?_eq_some_iff`).

The part of a text that a splice keeps is what a splice keeps of the result
(`handWritten?_endLine`), although the line feed of the marker line may be new and the text
behind it may repeat the marker. A text that is spliced in later replaces the one before it
(`splice?_again`). `splicesBehind` puts this together.
-/

namespace SettingsCompiler

open Text

/-! ## Lines of a text -/

/-- `line` is a line of a text, with `before` in front of it and `after` behind it. A line has
its line feed at the end, and only the last one of a text may lack it. -/
structure LineIn (text before line after : List Char) : Prop where
  split : text = before ++ line ++ after
  start : before = [] ∨ before.getLast? = some '\n'
  nonempty : line ≠ []
  inner : '\n' ∉ line.dropLast
  stop : line.getLast? = some '\n' ∨ after = []

theorem lineSpans_of_not_mem {l : List Char} (hne : l ≠ []) (h : '\n' ∉ l) : lineSpans l = [l] := by
  cases hl : lineSpans l with
  | nil =>
    have hflat := flatten_lineSpans l
    rw [hl] at hflat
    exact absurd hflat.symm hne
  | cons m ms =>
    have hflat := flatten_lineSpans l
    rw [hl, List.flatten_cons] at hflat
    rcases lineSpans_cons_inv hl with ⟨a, rest, -, rfl, -⟩ | ⟨-, -, rfl⟩
    · exact absurd (hflat ▸ by simp) h
    · simpa using hflat

/-- Behind a line feed the spans start anew. -/
theorem lineSpans_append_of_start {before : List Char}
    (h : before = [] ∨ before.getLast? = some '\n') (rest : List Char) :
    lineSpans (before ++ rest) = lineSpans before ++ lineSpans rest := by
  obtain rfl | h := h
  · rfl
  · obtain ⟨a, rfl⟩ := List.getLast?_eq_some_iff.mp h
    rw [List.append_assoc, List.singleton_append, lineSpans_append]

/-- A line parts the spans of a text in those before it and those behind it. -/
theorem LineIn.lineSpans_eq {text before line after : List Char}
    (h : LineIn text before line after) :
    lineSpans text = lineSpans before ++ line :: lineSpans after := by
  rw [h.split, List.append_assoc, lineSpans_append_of_start h.start]
  congr 1
  by_cases hlast : line.getLast? = some '\n'
  · obtain ⟨a, rfl⟩ := List.getLast?_eq_some_iff.mp hlast
    have ha : '\n' ∉ a := by simpa using h.inner
    rw [List.append_assoc, List.singleton_append, lineSpans_line after ha]
  · obtain rfl := h.stop.resolve_left hlast
    have hmem : '\n' ∉ line := by
      obtain ⟨a, c, rfl⟩ := (List.eq_nil_or_concat line).resolve_left h.nonempty
      have ha : '\n' ∉ a := by simpa using h.inner
      have hc : '\n' ≠ c := by simpa [eq_comm] using hlast
      simp [ha, hc]
    rw [List.append_nil, lineSpans_of_not_mem h.nonempty hmem]
    rfl

/-- Every span is a line, behind the spans before it. -/
theorem lineIn_of_lineSpans {line : List Char} {after : List (List Char)} :
    ∀ {before : List (List Char)} {text : List Char},
      lineSpans text = before ++ line :: after →
      LineIn text before.flatten line after.flatten ∧ lineSpans before.flatten = before
  | [], text, h => by
    have hflat := flatten_lineSpans text
    rw [h, List.nil_append, List.flatten_cons] at hflat
    refine ⟨⟨hflat.symm, .inl rfl, ?_, ?_, ?_⟩, rfl⟩
    all_goals
      rcases lineSpans_cons_inv h with ⟨a, rest, ha, rfl, -⟩ | ⟨ha, hne, rfl⟩
    · simp
    · exact hne
    · simpa using ha
    · exact fun hmem => ha (List.dropLast_subset _ hmem)
    · simp
    · exact .inr rfl
  | m :: before, text, h => by
    rcases lineSpans_cons_inv h with ⟨a, rest, ha, rfl, hrest⟩ | ⟨-, -, hnil⟩
    · obtain ⟨hline, hspans⟩ := lineIn_of_lineSpans hrest
      have hflat := flatten_lineSpans text
      refine ⟨⟨?_, .inr ?_, hline.nonempty, hline.inner, hline.stop⟩, ?_⟩
      · rw [← hflat, h]
        simp
      · obtain hnil | hlast := hline.start
        · simp [hnil]
        · rw [List.flatten_cons, List.getLast?_append, hlast, Option.some_or]
      · rw [List.flatten_cons, List.append_assoc, List.singleton_append, lineSpans_line _ ha, hspans]
    · cases before <;> cases hnil

/-! ## The line feed behind what is kept -/

theorem endLine_append {cs : List Char} (h : cs ≠ []) (l : List Char) :
    endLine (l ++ cs) = l ++ endLine cs := by
  have hlast : (l ++ cs).getLast? = cs.getLast? := by
    rw [List.getLast?_append, List.getLast?_eq_some_getLast h, Option.some_or]
  rw [endLine, endLine, hlast]
  split
  · rfl
  · exact List.append_assoc l cs _

theorem endLine_line (a : List Char) : endLine (a ++ ['\n']) = a ++ ['\n'] := by
  simp [endLine]

theorem endLine_of_not_mem {cs : List Char} (h : '\n' ∉ cs) : endLine cs = cs ++ ['\n'] :=
  if_neg fun hlast => h (List.mem_of_getLast? hlast)

/-- A text ends its last line once. -/
theorem endLine_endLine (cs : List Char) : endLine (endLine cs) = endLine cs := by
  by_cases h : cs.getLast? = some '\n'
  · simp [endLine, h]
  · simp [endLine, h]

theorem handWritten?_ne_nil {marker cs kept : List Char}
    (h : handWritten? marker (lineSpans cs) = some kept) : kept ≠ [] := by
  cases hcs : lineSpans cs with
  | nil =>
    rw [hcs] at h
    cases h
  | cons l ls =>
    have hl : l ≠ [] := by
      rcases lineSpans_cons_inv hcs with ⟨a, rest, -, rfl, -⟩ | ⟨-, hl, -⟩
      · simp
      · exact hl
    rw [hcs, handWritten?] at h
    split at h
    · exact Option.some.inj h ▸ hl
    · obtain ⟨kept, -, rfl⟩ := Option.map_eq_some_iff.mp h
      exact List.append_ne_nil_of_left_ne_nil hl kept

/-- What is kept is found again, whatever comes behind it. -/
theorem handWritten?_endLine {marker : List Char} (g : List Char) :
    ∀ {ls : List (List Char)} {cs kept : List Char}, lineSpans cs = ls →
      handWritten? marker ls = some kept →
      handWritten? marker (lineSpans (endLine kept ++ g)) = some (endLine kept)
  | l :: ls, cs, kept, hcs, h => by
    rw [handWritten?] at h
    split at h
    · next hmarker =>
      obtain rfl := Option.some.inj h
      rcases lineSpans_cons_inv hcs with ⟨a, rest, ha, rfl, -⟩ | ⟨hl, -, -⟩
      · rw [endLine_line, List.append_assoc, List.singleton_append, lineSpans_line g ha,
          handWritten?, if_pos hmarker]
      · have htrim : trim (l ++ ['\n']) = trim marker :=
          (trim_concat_of_isBlank rfl l).trans hmarker
        rw [endLine_of_not_mem hl, List.append_assoc, List.singleton_append, lineSpans_line g hl,
          handWritten?, if_pos htrim]
    · next hmarker =>
      obtain ⟨kept, hkept, rfl⟩ := Option.map_eq_some_iff.mp h
      rcases lineSpans_cons_inv hcs with ⟨a, rest, ha, rfl, hrest⟩ | ⟨-, -, rfl⟩
      · have ih := handWritten?_endLine g hrest hkept
        rw [endLine_append (handWritten?_ne_nil (hrest ▸ hkept)), List.append_assoc,
          List.append_assoc, List.singleton_append, lineSpans_line _ ha, handWritten?,
          if_neg hmarker, ih]
        simp
      · cases hkept

/-- A text that is spliced in later replaces the one before it. -/
theorem splice?_again {existing marker generated spliced : String}
    (h : splice? existing marker generated = some spliced) (generated' : String) :
    splice? spliced marker generated' = splice? existing marker generated' := by
  obtain ⟨kept, hkept, rfl⟩ := Option.map_eq_some_iff.mp h
  rw [splice?, splice?, String.toList_ofList, handWritten?_endLine _ rfl hkept, hkept,
    Option.map_some, Option.map_some, endLine_endLine]

/-- What was spliced is never empty, as the marker line is kept. -/
theorem splice?_ne_empty {existing marker generated spliced : String}
    (h : splice? existing marker generated = some spliced) : spliced ≠ "" := by
  obtain ⟨kept, hkept, rfl⟩ := Option.map_eq_some_iff.mp h
  have hne : endLine kept ≠ [] := by
    unfold endLine
    split
    · exact handWritten?_ne_nil hkept
    · simp
  intro hempty
  have := congrArg String.toList hempty
  rw [String.toList_ofList] at this
  exact hne (List.append_eq_nil_iff.mp this).1

/-! ## The marker line -/

/-- The first line of a text that equals the marker when blanks around both are ignored. -/
structure MarkerLine (marker text before line after : List Char) : Prop
    extends LineIn text before line after where
  marks : trim line = trim marker
  first : ∀ {b l a}, LineIn before b l a → trim l ≠ trim marker

/-- What is kept ends with the first line that equals the marker. -/
theorem handWritten?_eq_some_iff {marker kept : List Char} : ∀ {ls : List (List Char)},
    handWritten? marker ls = some kept ↔ ∃ before line after, ls = before ++ line :: after ∧
      (∀ l ∈ before, trim l ≠ trim marker) ∧ trim line = trim marker ∧
      kept = before.flatten ++ line
  | [] => by simp [handWritten?]
  | l :: ls => by
    rw [handWritten?]
    split
    · next hl =>
      constructor
      · intro h
        obtain rfl := Option.some.inj h
        exact ⟨[], l, ls, rfl, by simp, hl, rfl⟩
      · rintro ⟨before, line, after, heq, hbefore, -, rfl⟩
        cases before with
        | nil =>
          obtain ⟨rfl, rfl⟩ := List.cons.inj heq
          rfl
        | cons b before =>
          obtain ⟨rfl, rfl⟩ := List.cons.inj heq
          exact absurd hl (hbefore l List.mem_cons_self)
    · next hl =>
      rw [Option.map_eq_some_iff]
      constructor
      · rintro ⟨kept, hkept, rfl⟩
        obtain ⟨before, line, after, rfl, hbefore, hline, rfl⟩ := handWritten?_eq_some_iff.mp hkept
        exact ⟨l :: before, line, after, rfl, List.forall_mem_cons.mpr ⟨hl, hbefore⟩, hline,
          by simp⟩
      · rintro ⟨before, line, after, heq, hbefore, hline, rfl⟩
        cases before with
        | nil =>
          obtain ⟨rfl, rfl⟩ := List.cons.inj heq
          exact absurd hline hl
        | cons b before =>
          obtain ⟨rfl, rfl⟩ := List.cons.inj heq
          have hbefore' := (List.forall_mem_cons.mp hbefore).2
          exact ⟨_, handWritten?_eq_some_iff.mpr ⟨before, line, after, rfl, hbefore', hline, rfl⟩,
            by simp⟩

/-- Something is kept exactly if some line equals the marker. -/
theorem isSome_handWritten?_iff {marker : List Char} : ∀ {ls : List (List Char)},
    (handWritten? marker ls).isSome ↔ ∃ l ∈ ls, trim l = trim marker
  | [] => by simp [handWritten?]
  | l :: ls => by
    have ih : (handWritten? marker ls).isSome ↔ ∃ l ∈ ls, trim l = trim marker :=
      isSome_handWritten?_iff
    rw [handWritten?]
    split
    · next hl => simp [hl]
    · next hl => simp [hl, ih]

/-- What is kept is the text up to and including the marker line. -/
theorem handWritten?_lineSpans_iff {marker text kept : List Char} :
    handWritten? marker (lineSpans text) = some kept ↔
      ∃ before line after, MarkerLine marker text before line after ∧ kept = before ++ line := by
  rw [handWritten?_eq_some_iff]
  constructor
  · rintro ⟨before, line, after, hspans, hbefore, hline, rfl⟩
    obtain ⟨hin, hflat⟩ := lineIn_of_lineSpans hspans
    refine ⟨_, line, _, { hin with marks := hline, first := fun {b l a} hl => ?_ }, rfl⟩
    have hmem : l ∈ lineSpans before.flatten := by
      rw [hl.lineSpans_eq]
      simp
    exact hbefore l (hflat ▸ hmem)
  · rintro ⟨before, line, after, h, rfl⟩
    refine ⟨_, line, _, h.lineSpans_eq, fun l hl => ?_, h.marks, by rw [flatten_lineSpans]⟩
    obtain ⟨front, back, hfront⟩ := List.append_of_mem hl
    exact h.first (lineIn_of_lineSpans hfront).1

/-- What a splice does to a text, whatever is generated. It succeeds exactly if some line equals
the marker ; then the text up to and including the first such line is kept, gets a line feed if
it does not end in one, and the generated text comes behind it ; and another splice into what
this gives is a splice into the text. -/
structure SplicesBehind (existing marker : String) : Prop where
  succeeds : ∀ generated, (splice? existing marker generated).isSome ↔
    ∃ before line after, LineIn existing.toList before line after ∧
      trim line = trim marker.toList
  keeps : ∀ generated spliced, splice? existing marker generated = some spliced ↔
    ∃ before line after, MarkerLine marker.toList existing.toList before line after ∧
      spliced.toList = before ++ line ++ (if line.getLast? = some '\n' then [] else ['\n']) ++
        generated.toList
  again : ∀ generated spliced, splice? existing marker generated = some spliced →
    ∀ generated', splice? spliced marker generated' = splice? existing marker generated'

/-- Whatever is generated, any text is spliced behind its first marker line or not at all, and
splicing again forgets the text spliced before. -/
theorem splicesBehind (existing marker : String) : SplicesBehind existing marker where
  succeeds generated := by
    rw [splice?, Option.isSome_map, isSome_handWritten?_iff]
    constructor
    · rintro ⟨l, hl, hmarks⟩
      obtain ⟨before, after, hspans⟩ := List.append_of_mem hl
      exact ⟨_, l, _, (lineIn_of_lineSpans hspans).1, hmarks⟩
    · rintro ⟨before, line, after, hin, hmarks⟩
      exact ⟨line, by simp [hin.lineSpans_eq], hmarks⟩
  keeps generated spliced := by
    have hend {before line : List Char} (hne : line ≠ []) : endLine (before ++ line) =
        before ++ line ++ if line.getLast? = some '\n' then [] else ['\n'] := by
      rw [endLine_append hne, endLine]
      split <;> simp
    rw [splice?, Option.map_eq_some_iff]
    constructor
    · rintro ⟨kept, hkept, rfl⟩
      obtain ⟨before, line, after, hline, rfl⟩ := handWritten?_lineSpans_iff.mp hkept
      exact ⟨before, line, after, hline, by rw [String.toList_ofList, hend hline.nonempty]⟩
    · rintro ⟨before, line, after, hline, htext⟩
      refine ⟨_, handWritten?_lineSpans_iff.mpr ⟨before, line, after, hline, rfl⟩, ?_⟩
      rw [hend hline.nonempty, ← htext, String.ofList_toList]
  again _ _ h := splice?_again h

end SettingsCompiler
