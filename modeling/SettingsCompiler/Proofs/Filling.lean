import SettingsCompiler.Text.Wrap
import Mathlib

/-!
# Filled lines

A split of a list of pieces into runs is what a greedy filling gives (`IsGreedy`) if every run of
several pieces fits the limit and no run has room for the first piece of the next. There is one
such split, whatever the widths are (`IsGreedy.unique`) : of two that begin with different runs,
the shorter run has no room for a piece that the longer one holds. `fill` finds it by taking one
piece after another (`isGreedy_fill`), and `wrap` spells its runs.

A greedy split is never behind another one : where both have given as many runs, it has no more
pieces left (`IsGreedy.flatten_suffix`). So no split has fewer runs, and wider limits do not lead
to more of them (`wrapsShortest`).

A line of words is read back as the words of its run, so filling the lines again, one by one or
all of them together, gives the same lines (`wrapsGreedily`).
-/

namespace SettingsCompiler.Text

/-! ## Columns -/

/-- The columns of a run : those of its pieces, and one for each gap between two of them. -/
def columns (run : List Piece) : Nat :=
  (run.map Piece.width).sum + (run.length - 1)

@[simp] theorem columns_singleton (p : Piece) : columns [p] = p.width := by
  simp [columns]

/-- Two runs on one line take a gap more than they take by themselves. -/
theorem columns_append {run more : List Piece} (hrun : run ≠ []) (hmore : more ≠ []) :
    columns (run ++ more) = columns run + 1 + columns more := by
  have hrun := List.length_pos_iff.mpr hrun
  have hmore := List.length_pos_iff.mpr hmore
  simp only [columns, List.map_append, List.sum_append, List.length_append]
  omega

theorem columns_concat {run : List Piece} (h : run ≠ []) (p : Piece) :
    columns (run ++ [p]) = columns run + 1 + p.width := by
  rw [columns_append h (List.cons_ne_nil p []), columns_singleton]

/-- A run takes no fewer columns than its first piece. -/
theorem width_le_columns (p : Piece) (ps : List Piece) : p.width ≤ columns (p :: ps) := by
  rw [columns, List.map_cons, List.sum_cons]
  omega

/-- A run takes no fewer columns than its end. -/
theorem columns_le_append (run more : List Piece) : columns more ≤ columns (run ++ more) := by
  simp only [columns, List.map_append, List.sum_append, List.length_append]
  omega

/-! ## Splits -/

/-- A split of a list of pieces into runs that are one piece or fit the limit. -/
structure IsSplit (limit : Nat) (ps : List Piece) (runs : List (List Piece)) : Prop where
  flatten : runs.flatten = ps
  ne_nil : ∀ run ∈ runs, run ≠ []
  fits : ∀ run ∈ runs, 1 < run.length → columns run ≤ limit

/-- A split in which no run has room for the first piece of the next. -/
structure IsGreedy (limit : Nat) (ps : List Piece) (runs : List (List Piece)) : Prop
    extends IsSplit limit ps runs where
  full : runs.IsChain fun run next => ∀ p, next.head? = some p → limit < columns run + 1 + p.width

variable {limit : Nat} {ps run : List Piece} {runs : List (List Piece)} {p : Piece}

namespace IsSplit

theorem nil : IsSplit limit [] [] := ⟨rfl, nofun, nofun⟩

theorem cons (hne : run ≠ []) (hfits : 1 < run.length → columns run ≤ limit)
    (h : IsSplit limit ps runs) : IsSplit limit (run ++ ps) (run :: runs) where
  flatten := by rw [List.flatten_cons, h.flatten]
  ne_nil := List.forall_mem_cons.mpr ⟨hne, h.ne_nil⟩
  fits := List.forall_mem_cons.mpr ⟨hfits, h.fits⟩

theorem tail (h : IsSplit limit ps (run :: runs)) : IsSplit limit runs.flatten runs where
  flatten := rfl
  ne_nil := (List.forall_mem_cons.mp h.ne_nil).2
  fits := (List.forall_mem_cons.mp h.fits).2

/-- A split for some limit is one for a wider limit. -/
theorem mono {wider : Nat} (hwider : limit ≤ wider) (h : IsSplit limit ps runs) :
    IsSplit wider ps runs :=
  ⟨h.flatten, h.ne_nil, fun run hrun hlen => (h.fits run hrun hlen).trans hwider⟩

/-- The end of the first run is a run in front of the others. -/
theorem drop_first {more : List Piece} (hmore : more ≠ [])
    (h : IsSplit limit ps ((run ++ more) :: runs)) :
    IsSplit limit (more ++ runs.flatten) (more :: runs) := by
  refine h.tail.cons hmore fun hlen => ?_
  have hfits : columns (run ++ more) ≤ limit := by
    refine h.fits _ List.mem_cons_self (hlen.trans_le ?_)
    rw [List.length_append]
    exact Nat.le_add_left _ _
  exact (columns_le_append run more).trans hfits

/-- Only an empty list has no runs. -/
theorem eq_nil_iff (h : IsSplit limit ps runs) : runs = [] ↔ ps = [] := by
  constructor
  · rintro rfl
    exact h.flatten.symm
  · rintro rfl
    cases runs with
    | nil => rfl
    | cons run runs =>
      have hflat := List.append_eq_nil_iff.mp h.flatten
      exact absurd hflat.1 (h.ne_nil run List.mem_cons_self)

end IsSplit

namespace IsGreedy

theorem nil : IsGreedy limit [] [] := ⟨.nil, .nil⟩

theorem single (hne : run ≠ []) (hfits : 1 < run.length → columns run ≤ limit) :
    IsGreedy limit run [run] := by
  have hsplit := IsSplit.nil.cons hne hfits
  rw [List.append_nil] at hsplit
  exact ⟨hsplit, .singleton run⟩

/-- A run with no room for the piece behind it comes in front of the runs from this piece on. -/
theorem cons (hne : run ≠ []) (hfits : 1 < run.length → columns run ≤ limit)
    (hfull : limit < columns run + 1 + p.width) (h : IsGreedy limit (p :: ps) runs) :
    IsGreedy limit (run ++ p :: ps) (run :: runs) where
  toIsSplit := h.toIsSplit.cons hne hfits
  full := by
    cases runs with
    | nil => exact absurd (h.eq_nil_iff.mp rfl) (List.cons_ne_nil p ps)
    | cons next runs =>
      obtain ⟨q, next, rfl⟩ := List.exists_cons_of_ne_nil (h.ne_nil next List.mem_cons_self)
      obtain ⟨rfl, -⟩ := List.cons.inj h.flatten
      refine List.isChain_cons_cons.mpr ⟨fun p hp => ?_, h.full⟩
      obtain rfl := Option.some.inj hp
      exact hfull

theorem tail (h : IsGreedy limit ps (run :: runs)) : IsGreedy limit runs.flatten runs :=
  ⟨h.toIsSplit.tail, h.full.tail⟩

/-- The first run has no room for the piece behind it. -/
theorem full_of_flatten (h : IsGreedy limit ps (run :: runs)) {rest : List Piece}
    (hrest : runs.flatten = p :: rest) : limit < columns run + 1 + p.width := by
  cases runs with
  | nil => cases hrest
  | cons next runs =>
    obtain ⟨q, next, rfl⟩ := List.exists_cons_of_ne_nil (h.tail.ne_nil next List.mem_cons_self)
    obtain ⟨rfl, -⟩ := List.cons.inj hrest
    exact (List.isChain_cons_cons.mp h.full).1 q rfl

/-- The first run of a greedy split is not exceeded by the first run of any other split. -/
theorem eq_nil_of_append (h : IsGreedy limit ps (run :: runs)) {more : List Piece}
    {others : List (List Piece)} (h' : IsSplit limit ps ((run ++ more) :: others)) :
    more = [] := by
  cases more with
  | nil => rfl
  | cons p more =>
    have hne : run ≠ [] := h.ne_nil run List.mem_cons_self
    have hrest : runs.flatten = p :: (more ++ others.flatten) := by
      have hflat := h.flatten.trans h'.flatten.symm
      simpa using hflat
    have hfull := h.full_of_flatten hrest
    have hfits : columns (run ++ p :: more) ≤ limit := by
      refine h'.fits _ List.mem_cons_self ?_
      have hpos := List.length_pos_iff.mpr hne
      simp only [List.length_append, List.length_cons]
      omega
    have hmore := width_le_columns p more
    rw [columns_append hne (List.cons_ne_nil p more)] at hfits
    omega

/-- Behind its first run a greedy split has no more pieces left than another split of no fewer
pieces has behind its own. -/
theorem flatten_suffix {qs other : List Piece} {others : List (List Piece)}
    (h : IsGreedy limit ps (run :: runs)) (h' : IsSplit limit qs (other :: others))
    (hsuffix : ps <:+ qs) : runs.flatten <:+ others.flatten := by
  obtain ⟨before, hbefore⟩ := hsuffix
  have hps : run ++ runs.flatten = ps := h.flatten
  have hqs : before ++ ps = other ++ others.flatten := hbefore.trans h'.flatten.symm
  rcases List.append_eq_append_iff.mp hqs with ⟨rest, rfl, hrest⟩ | ⟨ahead, -, hahead⟩
  · -- The other run goes on into the pieces left, by `rest`.
    rcases List.append_eq_append_iff.mp (hps.trans hrest) with ⟨more, rfl, hmore⟩ | ⟨more, -, hmore⟩
    · have hne : run ++ more ≠ [] := by
        simp [h.ne_nil run List.mem_cons_self]
      have hsplit := h'.drop_first hne
      rw [← hrest] at hsplit
      rw [h.eq_nil_of_append hsplit, List.nil_append] at hmore
      exact hmore ▸ List.suffix_rfl
    · exact ⟨more, hmore.symm⟩
  · exact ⟨ahead ++ run, by rw [List.append_assoc, hps, hahead]⟩

/-- A greedy split has no more runs than another split of no fewer pieces. -/
theorem length_le_of_suffix : ∀ {runs others : List (List Piece)} {ps qs : List Piece},
    IsGreedy limit ps runs → IsSplit limit qs others → ps <:+ qs → runs.length ≤ others.length
  | [], others, _, _, _, _, _ => Nat.zero_le _
  | run :: runs, [], ps, qs, h, h', hsuffix => by
    have hqs : qs = [] := h'.eq_nil_iff.mp rfl
    have hps : ps = [] := List.suffix_nil.mp (hqs ▸ hsuffix)
    exact absurd (h.eq_nil_iff.mpr hps) (List.cons_ne_nil run runs)
  | run :: runs, other :: others, ps, qs, h, h', hsuffix => by
    have hrest := h.flatten_suffix h' hsuffix
    exact Nat.succ_le_succ (h.tail.length_le_of_suffix h'.tail hrest)

/-- A list of pieces has at most one greedy split. -/
theorem unique : ∀ {runs runs' : List (List Piece)} {ps : List Piece},
    IsGreedy limit ps runs → IsGreedy limit ps runs' → runs = runs'
  | [], runs', ps, h, h' => (h'.eq_nil_iff.mpr (h.eq_nil_iff.mp rfl)).symm
  | run :: runs, [], ps, h, h' => h.eq_nil_iff.mpr (h'.eq_nil_iff.mp rfl)
  | run :: runs, run' :: runs', ps, h, h' => by
    have hflat : run ++ runs.flatten = run' ++ runs'.flatten := h.flatten.trans h'.flatten.symm
    have hrun : run = run' := by
      rcases List.append_eq_append_iff.mp hflat with ⟨more, rfl, -⟩ | ⟨more, rfl, -⟩
      · rw [h.eq_nil_of_append h'.toIsSplit, List.append_nil]
      · rw [h'.eq_nil_of_append h.toIsSplit, List.append_nil]
    subst hrun
    have htail := h.tail
    rw [List.append_cancel_left hflat] at htail
    rw [htail.unique h'.tail]

end IsGreedy

/-! ## One piece after another -/

/-- Filling on from a run that fits gives a greedy split of the run and the pieces behind it. -/
theorem isGreedy_fillFrom (limit : Nat) : ∀ (ps : List Piece) {run : List Piece}, run ≠ [] →
    (1 < run.length → columns run ≤ limit) →
    IsGreedy limit (run ++ ps) (fillFrom limit run (columns run) ps)
  | [], run, hne, hfits => by
    rw [List.append_nil]
    exact .single hne hfits
  | p :: ps, run, hne, hfits => by
    rw [fillFrom]
    split
    · next hroom =>
      rw [← columns_concat hne] at hroom ⊢
      rw [List.append_cons]
      exact isGreedy_fillFrom limit ps (by simp) fun _ => hroom
    · next hroom =>
      have hrest : IsGreedy limit (p :: ps) (fillFrom limit [p] p.width ps) := by
        have hone := isGreedy_fillFrom limit ps (List.cons_ne_nil p []) (by simp)
        rwa [columns_singleton] at hone
      exact hrest.cons hne hfits (Nat.lt_of_not_le hroom)

/-- Filling gives a greedy split. -/
theorem isGreedy_fill (limit : Nat) (ps : List Piece) : IsGreedy limit ps (fill limit ps) := by
  cases ps with
  | nil => exact .nil
  | cons p ps =>
    have hone := isGreedy_fillFrom limit ps (List.cons_ne_nil p []) (by simp)
    rwa [columns_singleton] at hone

/-- A split is greedy exactly if it is the filled one. -/
theorem isGreedy_iff {limit : Nat} {ps : List Piece} {runs : List (List Piece)} :
    IsGreedy limit ps runs ↔ runs = fill limit ps := by
  constructor
  · exact fun h => h.unique (isGreedy_fill limit ps)
  · rintro rfl
    exact isGreedy_fill limit ps

/-! ## Fewest lines -/

/-- No split has fewer runs than the filled one. -/
theorem length_fill_le {limit : Nat} {ps : List Piece} {runs : List (List Piece)}
    (h : IsSplit limit ps runs) : (fill limit ps).length ≤ runs.length :=
  (isGreedy_fill limit ps).length_le_of_suffix h List.suffix_rfl

/-- The lines of a list of pieces are the runs of a split of it, and no split has fewer runs. Where
more columns are allowed, there are no more lines. -/
theorem wrapsShortest (ps : List Piece) :
    (∀ limit, (∃ runs, IsSplit limit ps runs ∧ wrap limit ps = runs.map spell) ∧
      IsLeast {n | ∃ runs, IsSplit limit ps runs ∧ runs.length = n} (wrap limit ps).length) ∧
    Antitone fun limit => (wrap limit ps).length := by
  have hsplit (limit : Nat) : IsSplit limit ps (fill limit ps) := (isGreedy_fill limit ps).toIsSplit
  have hlength (limit : Nat) : (wrap limit ps).length = (fill limit ps).length := List.length_map _
  refine ⟨fun limit => ⟨⟨fill limit ps, hsplit limit, rfl⟩, ?_, ?_⟩, fun limit wider hwider => ?_⟩
  · exact ⟨fill limit ps, hsplit limit, (hlength limit).symm⟩
  · rintro n ⟨runs, hruns, rfl⟩
    rw [hlength]
    exact length_fill_le hruns
  · simp only [hlength]
    exact length_fill_le ((hsplit limit).mono hwider)

/-! ## Lines of words -/

/-- The piece is a word, as wide as it is long. -/
structure IsWord (p : Piece) : Prop where
  plain : Piece.plain p.text = p
  ne_empty : p.text ≠ ""
  solid : ∀ c ∈ p.text.toList, isBlank c = false

/-- The pieces of a text without links are words. -/
theorem isWord_of_mem_wordsOf {s : String} {p : Piece} (h : p ∈ (wordsOf s).map Piece.plain) :
    IsWord p := by
  obtain ⟨word, hword, rfl⟩ := List.mem_map.mp h
  obtain ⟨w, hw, rfl⟩ := List.mem_map.mp hword
  obtain ⟨hne, hsolid⟩ := mem_words hw
  exact ⟨rfl, by simpa [Piece.plain] using hne, by simpa [Piece.plain] using hsolid⟩

/-- A blank between two texts parts their words. -/
theorem wordsOf_append {sep : String} {c : Char} (hsep : sep.toList = [c]) (hc : isBlank c = true)
    (s t : String) : wordsOf (s ++ sep ++ t) = wordsOf s ++ wordsOf t := by
  have hcut : (s ++ sep ++ t).toList = s.toList ++ c :: t.toList := by
    simp [hsep]
  rw [wordsOf, hcut, words_append_blank hc, List.map_append]
  rfl

theorem IsWord.wordsOf_text {p : Piece} (h : IsWord p) : wordsOf p.text = [p.text] := by
  have hne : p.text.toList ≠ [] := by simpa using h.ne_empty
  rw [wordsOf, words_of_solid hne h.solid]
  simp

/-- The words of a line are those of its run. -/
theorem wordsOf_spell : ∀ {run : List Piece}, (∀ p ∈ run, IsWord p) →
    wordsOf (spell run) = run.map Piece.text
  | [], _ => rfl
  | [p], h => (h p List.mem_cons_self).wordsOf_text
  | p :: q :: run, h => by
    obtain ⟨hp, hrun⟩ := List.forall_mem_cons.mp h
    have ih := wordsOf_spell hrun
    have hspell : spell (p :: q :: run) = p.text ++ " " ++ spell (q :: run) := rfl
    rw [hspell, wordsOf_append rfl rfl, hp.wordsOf_text, ih]
    rfl

/-- The words of lines are those of each line, one line after another. -/
theorem wordsOf_unlines : ∀ ss : List String, wordsOf (unlines ss) = ss.flatMap wordsOf
  | [] => rfl
  | s :: ss => by
    have ih := wordsOf_unlines ss
    rw [unlines, wordsOf_append rfl rfl, ih, List.flatMap_cons]

theorem isWord_of_mem_fill {limit : Nat} {s : String} {run : List Piece}
    (h : run ∈ fill limit ((wordsOf s).map Piece.plain)) : ∀ p ∈ run, IsWord p := by
  intro p hp
  have hmem := List.mem_flatten_of_mem h hp
  rw [flatten_fill] at hmem
  exact isWord_of_mem_wordsOf hmem

/-- A line of words is filled as it is : its run is a greedy split of itself. -/
theorem wrapWords_of_mem {limit : Nat} {s line : String} (h : line ∈ wrapWords limit s) :
    wrapWords limit line = [line] := by
  obtain ⟨run, hrun, rfl⟩ := List.mem_map.mp h
  have hgreedy := isGreedy_fill limit ((wordsOf s).map Piece.plain)
  have hone := IsGreedy.single (hgreedy.ne_nil run hrun) (hgreedy.fits run hrun)
  have hwords := isWord_of_mem_fill hrun
  have hread : (wordsOf (spell run)).map Piece.plain = run := by
    rw [wordsOf_spell hwords, List.map_map]
    calc run.map (Piece.plain ∘ Piece.text) = run.map id :=
          List.map_congr_left fun p hp => (hwords p hp).plain
      _ = run := List.map_id run
  rw [wrapWords, hread, wrap, ← isGreedy_iff.mp hone]
  rfl

/-- The lines of a text have its words. -/
theorem wordsOf_unlines_wrapWords (limit : Nat) (s : String) :
    wordsOf (unlines (wrapWords limit s)) = wordsOf s := by
  let runs := fill limit ((wordsOf s).map Piece.plain)
  have hlines : wrapWords limit s = runs.map spell := rfl
  have hwords : ∀ run ∈ runs, wordsOf (spell run) = run.map Piece.text := fun run hrun =>
    wordsOf_spell (isWord_of_mem_fill hrun)
  calc wordsOf (unlines (wrapWords limit s))
      = runs.flatMap fun run => wordsOf (spell run) := by
        rw [wordsOf_unlines, hlines, List.flatMap_map]
    _ = runs.flatMap (List.map Piece.text) := List.flatMap_congr hwords
    _ = runs.flatten.map Piece.text := by rw [List.map_flatten, List.flatMap_def]
    _ = wordsOf s := by
        rw [flatten_fill, List.map_map]
        exact List.map_id _

/-- The lines of a list of pieces are the runs of its one greedy split. Filled again, each by
itself or all together, the lines of a text stay as they are. -/
theorem wrapsGreedily (limit : Nat) :
    (∀ ps, ∃ runs, (∀ runs', IsGreedy limit ps runs' ↔ runs' = runs) ∧
      wrap limit ps = runs.map fun run => joinWith " " (run.map Piece.text)) ∧
    ∀ s, (wrapWords limit s).flatMap (wrapWords limit) = wrapWords limit s ∧
      wrapWords limit (unlines (wrapWords limit s)) = wrapWords limit s := by
  refine ⟨fun ps => ⟨fill limit ps, fun _ => isGreedy_iff, rfl⟩, fun s => ⟨?_, ?_⟩⟩
  · calc (wrapWords limit s).flatMap (wrapWords limit)
        = (wrapWords limit s).flatMap fun line => [line] :=
          List.flatMap_congr fun line hline => wrapWords_of_mem hline
      _ = wrapWords limit s := List.flatMap_singleton' _
  · rw [wrapWords, wordsOf_unlines_wrapWords]
    rfl

example : wrap 4 [⟨"", 0⟩, ⟨"long", 9⟩, ⟨"a", 1⟩, ⟨"<b>", 2⟩] = ["", "long", "a <b>"] := by decide

end SettingsCompiler.Text
