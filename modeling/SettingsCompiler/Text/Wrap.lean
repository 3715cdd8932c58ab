import SettingsCompiler.Text.Blank
import SettingsCompiler.Text.Lines

/-!
# Greedy line filling

A piece is a text that is never split, with the number of columns it takes. `fill` cuts
a list of pieces into runs : a piece joins the current run as long as the run still fits
the limit, one column counted for each gap, and starts the next run otherwise. A piece
wider than the limit is a run of its own. `wrap` spells each run as a line.
-/

namespace SettingsCompiler.Text

/-- A text that stays on one line and the columns it takes. -/
structure Piece where
  text : String
  width : Nat
deriving DecidableEq, Repr

/-- A text that takes one column for each character. -/
def Piece.plain (text : String) : Piece := ⟨text, text.length⟩

/-- The runs of a list of pieces, where `run` is under way and takes `used` columns. -/
def fillFrom (limit : Nat) (run : List Piece) (used : Nat) : List Piece → List (List Piece)
  | [] => [run]
  | p :: ps =>
    if used + 1 + p.width ≤ limit then fillFrom limit (run ++ [p]) (used + 1 + p.width) ps
    else run :: fillFrom limit [p] p.width ps

/-- The runs that become lines of at most `limit` columns. -/
def fill (limit : Nat) : List Piece → List (List Piece)
  | [] => []
  | p :: ps => fillFrom limit [p] p.width ps

/-- A run as a line. -/
def spell (run : List Piece) : String :=
  joinWith " " (run.map Piece.text)

/-- The pieces on as few lines as possible, each of at most `limit` columns unless it is
a single wide piece. -/
def wrap (limit : Nat) (ps : List Piece) : List String :=
  (fill limit ps).map spell

/-- The words of a text on lines of at most `limit` characters. -/
def wrapWords (limit : Nat) (s : String) : List String :=
  wrap limit ((wordsOf s).map Piece.plain)

theorem flatten_fillFrom (limit : Nat) :
    ∀ (ps run : List Piece) (used : Nat), (fillFrom limit run used ps).flatten = run ++ ps
  | [], run, used => by simp [fillFrom]
  | p :: ps, run, used => by
    unfold fillFrom
    split
    · simp [flatten_fillFrom limit ps]
    · simp [flatten_fillFrom limit ps]

/-- No piece is lost, repeated or moved. -/
theorem flatten_fill (limit : Nat) (ps : List Piece) : (fill limit ps).flatten = ps := by
  cases ps with
  | nil => rfl
  | cons p ps => exact flatten_fillFrom limit ps [p] p.width

theorem ne_nil_of_mem_fillFrom (limit : Nat) :
    ∀ {ps run r : List Piece} {used : Nat}, run ≠ [] → r ∈ fillFrom limit run used ps → r ≠ []
  | [], run, r, used, hrun, hr => by
    rw [fillFrom, List.mem_singleton] at hr
    exact hr ▸ hrun
  | p :: ps, run, r, used, hrun, hr => by
    unfold fillFrom at hr
    split at hr
    · exact ne_nil_of_mem_fillFrom limit (by simp) hr
    · rcases List.mem_cons.mp hr with rfl | hr
      · exact hrun
      · exact ne_nil_of_mem_fillFrom limit (List.cons_ne_nil p []) hr

/-- Every run has a piece. -/
theorem ne_nil_of_mem_fill (limit : Nat) (ps : List Piece) {r : List Piece}
    (h : r ∈ fill limit ps) : r ≠ [] := by
  cases ps with
  | nil => cases h
  | cons p ps => exact ne_nil_of_mem_fillFrom limit (List.cons_ne_nil p []) h

/-- The last run ends in the last piece. -/
theorem exists_getLast?_fill (limit : Nat) (ps : List Piece) (p : Piece) :
    ∃ run, (fill limit (ps ++ [p])).getLast? = some (run ++ [p]) := by
  have hflat := flatten_fill limit (ps ++ [p])
  rcases List.eq_nil_or_concat (fill limit (ps ++ [p])) with hnil | ⟨runs, run, hruns⟩
  · simp [hnil] at hflat
  · have hne : run ≠ [] := ne_nil_of_mem_fill limit (ps ++ [p]) (by simp [hruns])
    obtain ⟨init, last, rfl⟩ := (List.eq_nil_or_concat run).resolve_left hne
    rw [hruns] at hflat ⊢
    have hsplit : (runs.flatten ++ init) ++ [last] = ps ++ [p] := by simpa using hflat
    obtain rfl : last = p := by simpa using (List.append_inj' hsplit rfl).2
    exact ⟨init, by simp⟩

/-- A line has no blanks but spaces. -/
theorem isBlank_of_mem_wrapWords {limit : Nat} {s line : String} (h : line ∈ wrapWords limit s)
    {c : Char} (hc : c ∈ line.toList) : c = ' ' ∨ isBlank c = false := by
  obtain ⟨run, hrun, rfl⟩ := List.mem_map.mp h
  rcases mem_joinWith hc with hspace | ⟨text, htext, hmem⟩
  · exact .inl (List.mem_singleton.mp hspace)
  · obtain ⟨p, hp, rfl⟩ := List.mem_map.mp htext
    have hflat : p ∈ (fill limit ((wordsOf s).map Piece.plain)).flatten :=
      List.mem_flatten_of_mem hrun hp
    rw [flatten_fill] at hflat
    obtain ⟨word, hword, rfl⟩ := List.mem_map.mp hflat
    obtain ⟨w, hw, rfl⟩ := List.mem_map.mp hword
    rw [Piece.plain, String.toList_ofList] at hmem
    exact .inr ((mem_words hw).2 c hmem)

/-- The last line ends in the last character of the text that is not blank. -/
theorem getLast?_wrapWords (limit : Nat) (s : String) :
    (wrapWords limit s).getLast?.bind (·.toList.getLast?) =
      (s.toList.filter (!isBlank ·)).getLast? := by
  rw [wrapWords, wordsOf, ← flatten_words]
  rcases List.eq_nil_or_concat (words s.toList) with hnil | ⟨ws, w, hws⟩
  · rw [hnil]
    rfl
  · have hmem : w ∈ words s.toList := by simp [hws]
    have hw : w ≠ [] := (mem_words hmem).1
    have hne : String.ofList w ≠ "" := by simpa using hw
    have hps : (((words s.toList).map String.ofList).map Piece.plain) =
        (ws.map String.ofList).map Piece.plain ++ [Piece.plain (String.ofList w)] := by
      simp [hws]
    obtain ⟨run, hrun⟩ := exists_getLast?_fill limit ((ws.map String.ofList).map Piece.plain)
      (Piece.plain (String.ofList w))
    rw [wrap, hps, List.getLast?_map, hrun, hws]
    have hspell : (spell (run ++ [Piece.plain (String.ofList w)])).toList.getLast? =
        w.getLast? := by
      rw [spell, List.map_append, List.map_singleton]
      exact (getLast?_joinWith " " hne _).trans (by simp)
    simp [hspell, List.getLast?_append, List.getLast?_eq_some_getLast hw]

end SettingsCompiler.Text
