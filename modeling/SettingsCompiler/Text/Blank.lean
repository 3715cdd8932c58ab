/-!
# Blank characters, words and trimming

`isBlank` holds of the characters that Unicode calls white space. `pieces` cuts a text
at every character of a class, and joining the pieces with the removed characters gives
the text back ; `words` keeps the non-empty pieces between blanks. `trim` and `trimEnd`
drop blanks at the ends only.
-/

namespace SettingsCompiler.Text

/-! ## The class -/

/-- The characters with the Unicode property White_Space. -/
def isBlank (c : Char) : Bool :=
  let n := c.toNat
  (0x09 ≤ n && n ≤ 0x0D) || n == 0x20 || n == 0x85 || n == 0xA0 || n == 0x1680 ||
    (0x2000 ≤ n && n ≤ 0x200A) || n == 0x2028 || n == 0x2029 || n == 0x202F ||
    n == 0x205F || n == 0x3000

/-! ## Words -/

/-- The pieces of a text between the characters in `sep`, empty ones included. -/
def pieces (sep : Char → Bool) : List Char → List (List Char)
  | [] => [[]]
  | c :: cs =>
    if sep c then [] :: pieces sep cs
    else match pieces sep cs with
      | [] => [[c]]
      | p :: ps => (c :: p) :: ps

theorem pieces_ne_nil (sep : Char → Bool) : ∀ cs : List Char, pieces sep cs ≠ []
  | [] => by simp [pieces]
  | c :: cs => by
    unfold pieces
    split
    · simp
    · split <;> simp

/-- A piece has characters of the text, and none that the text is cut at. -/
theorem mem_of_mem_pieces {sep : Char → Bool} {d : Char} {p : List Char} (hd : d ∈ p) :
    ∀ {cs : List Char}, p ∈ pieces sep cs → d ∈ cs ∧ sep d = false
  | [], h => by
    rw [pieces, List.mem_singleton] at h
    cases h ▸ hd
  | c :: cs, h => by
    have rest {q : List Char} (hq : q ∈ pieces sep cs) (hd : d ∈ q) :
        d ∈ c :: cs ∧ sep d = false :=
      (mem_of_mem_pieces hd hq).imp_left (List.mem_cons_of_mem c)
    rw [pieces] at h
    split at h
    · rcases List.mem_cons.mp h with rfl | h
      · cases hd
      · exact rest h hd
    · next hc =>
      cases hps : pieces sep cs with
      | nil => exact absurd hps (pieces_ne_nil sep cs)
      | cons q qs =>
        rw [hps] at h rest
        rcases List.mem_cons.mp h with rfl | h
        · rcases List.mem_cons.mp hd with rfl | hd
          · exact ⟨List.mem_cons_self, by simpa using hc⟩
          · exact rest List.mem_cons_self hd
        · exact rest (List.mem_cons_of_mem _ h) hd

/-- Characters that the text is not cut at are in front of its first piece. -/
theorem pieces_append {sep : Char → Bool} {cs p : List Char} {ps : List (List Char)}
    (hcs : pieces sep cs = p :: ps) : ∀ {a : List Char}, (∀ c ∈ a, sep c = false) →
    pieces sep (a ++ cs) = (a ++ p) :: ps
  | [], _ => hcs
  | c :: a, h => by
    obtain ⟨hc, ha⟩ := List.forall_mem_cons.mp h
    have ih := pieces_append hcs ha
    rw [List.cons_append, pieces, hc, if_neg Bool.false_ne_true, ih, List.cons_append]

theorem pieces_of_forall {sep : Char → Bool} {a : List Char} (h : ∀ c ∈ a, sep c = false) :
    pieces sep a = [a] := by
  have hpieces := pieces_append (rfl : pieces sep [] = [[]]) h
  rwa [List.append_nil] at hpieces

/-- At a character that a text is cut at, the pieces before it and behind it part. -/
theorem pieces_append_sep {sep : Char → Bool} {c : Char} (hc : sep c = true) (cs : List Char) :
    ∀ a : List Char, pieces sep (a ++ c :: cs) = pieces sep a ++ pieces sep cs
  | [] => by simp [pieces, hc]
  | d :: a => by
    have ih := pieces_append_sep hc cs a
    rw [List.cons_append, pieces, pieces, ih]
    split
    · rfl
    · cases hps : pieces sep a with
      | nil => exact absurd hps (pieces_ne_nil sep a)
      | cons p ps => rfl

/-- What stands before a character that the text is cut at is a piece. -/
theorem pieces_append_cons {sep : Char → Bool} {a cs : List Char} {c : Char}
    (h : ∀ d ∈ a, sep d = false) (hc : sep c = true) :
    pieces sep (a ++ c :: cs) = a :: pieces sep cs := by
  rw [pieces_append_sep hc, pieces_of_forall h, List.singleton_append]

/-- The pieces have all characters but those that the text is cut at. -/
theorem flatten_pieces (sep : Char → Bool) : ∀ cs : List Char,
    (pieces sep cs).flatten = cs.filter (!sep ·)
  | [] => rfl
  | c :: cs => by
    have ih := flatten_pieces sep cs
    rw [pieces, List.filter_cons]
    cases hc : sep c with
    | true => simpa using ih
    | false =>
      cases hps : pieces sep cs with
      | nil => exact absurd hps (pieces_ne_nil sep cs)
      | cons p ps =>
        rw [hps] at ih
        simpa using ih

/-- Put together with the character that a text is cut at, the pieces give the text back. -/
theorem intercalate_pieces (c : Char) : ∀ cs : List Char,
    List.intercalate [c] (pieces (· = c) cs) = cs
  | [] => rfl
  | d :: cs => by
    have ih := intercalate_pieces c cs
    rw [pieces]
    cases hps : pieces (· = c) cs with
    | nil => exact absurd hps (pieces_ne_nil _ cs)
    | cons p ps =>
      rw [hps] at ih
      split
      · next hd =>
        rw [List.intercalate, List.intersperse_cons_cons, List.flatten_cons, List.flatten_cons,
          ← List.intercalate, ih, of_decide_eq_true hd]
        rfl
      · cases ps with
        | nil =>
          have hp : p = cs := by simpa [List.intercalate] using ih
          simp [List.intercalate, hp]
        | cons q qs =>
          simp only [List.intercalate, List.intersperse_cons_cons, List.flatten_cons] at ih ⊢
          rw [List.cons_append, ih]

/-- The words of a text : its maximal runs of non-blank characters, in order. -/
def words (cs : List Char) : List (List Char) :=
  (pieces isBlank cs).filter (!·.isEmpty)

/-- The words of a string. -/
def wordsOf (s : String) : List String :=
  (words s.toList).map String.ofList

theorem mem_words {cs w : List Char} (h : w ∈ words cs) :
    w ≠ [] ∧ ∀ c ∈ w, isBlank c = false := by
  obtain ⟨hw, hne⟩ := List.mem_filter.mp h
  exact ⟨by simpa using hne, fun c hc => (mem_of_mem_pieces hc hw).2⟩

/-- A blank parts the words before it from those behind it. -/
theorem words_append_blank {c : Char} (hc : isBlank c = true) (a b : List Char) :
    words (a ++ c :: b) = words a ++ words b := by
  rw [words, pieces_append_sep hc, List.filter_append]
  rfl

/-- A text without blanks is one word. -/
theorem words_of_solid {w : List Char} (hne : w ≠ []) (h : ∀ c ∈ w, isBlank c = false) :
    words w = [w] := by
  rw [words, pieces_of_forall h]
  simp [hne]

/-- The words of a text have all its characters but the blanks. -/
theorem flatten_words (cs : List Char) : (words cs).flatten = cs.filter (!isBlank ·) := by
  rw [words, List.flatten_filter_not_isEmpty, flatten_pieces]

/-! ## Trimming -/

/-- A text without its trailing blanks. -/
def trimEnd (cs : List Char) : List Char :=
  (cs.reverse.dropWhile isBlank).reverse

/-- A text without its leading and trailing blanks. -/
def trim (cs : List Char) : List Char :=
  trimEnd (cs.dropWhile isBlank)

theorem trimEnd_subset (cs : List Char) : trimEnd cs ⊆ cs := by
  intro c hc
  exact List.mem_reverse.mp ((List.dropWhile_sublist _).subset (List.mem_reverse.mp hc))

/-- Trimming a text that ends in blanks only goes on in front of them. -/
theorem trimEnd_append (a b : List Char) :
    trimEnd (a ++ b) = if trimEnd b = [] then trimEnd a else a ++ trimEnd b := by
  simp only [trimEnd, List.reverse_append, List.dropWhile_append, List.reverse_eq_nil_iff,
    List.isEmpty_iff]
  split
  · rfl
  · rw [List.reverse_append, List.reverse_reverse]

theorem trimEnd_concat_of_isBlank {c : Char} (h : isBlank c = true) (cs : List Char) :
    trimEnd (cs ++ [c]) = trimEnd cs := by
  simp [trimEnd, h]

theorem trimEnd_concat_of_not_isBlank {c : Char} (h : isBlank c = false) (cs : List Char) :
    trimEnd (cs ++ [c]) = cs ++ [c] := by
  simp [trimEnd, h]

/-- A blank at the end is trimmed, also from a text of blanks. -/
theorem trim_concat_of_isBlank {c : Char} (h : isBlank c = true) (cs : List Char) :
    trim (cs ++ [c]) = trim cs := by
  rw [trim, trim, List.dropWhile_append]
  split
  · next hall =>
    rw [List.isEmpty_iff.mp hall, List.dropWhile_cons_of_pos h]
    rfl
  · exact trimEnd_concat_of_isBlank h _

end SettingsCompiler.Text
