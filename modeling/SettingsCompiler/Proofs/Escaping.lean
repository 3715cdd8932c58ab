import SettingsCompiler.Docs.Html
import Mathlib.Data.List.Induction

/-!
# Escaped texts

`decode` reads the four entities of an escaped text in one pass from left to right, and so
gives the text back (`decode_flatMap_escapeChar`). An escaped text has none of the characters
that delimit elements and attributes (`not_mem_flatMap_escapeChar`), and every other character
is its own spelling (`escapeChar_of_isOrdinary`).

An entity neither begins nor ends with a blank, so trimming commutes with escaping
(`trimEnd_flatMap_escapeChar`).
-/

namespace SettingsCompiler

namespace Docs

open Text

/-- A text with its entities read from left to right. -/
def decode : List Char → List Char
  | '&' :: 'a' :: 'm' :: 'p' :: ';' :: cs => '&' :: decode cs
  | '&' :: 'l' :: 't' :: ';' :: cs => '<' :: decode cs
  | '&' :: 'g' :: 't' :: ';' :: cs => '>' :: decode cs
  | '&' :: 'q' :: 'u' :: 'o' :: 't' :: ';' :: cs => '\x22' :: decode cs
  | c :: cs => c :: decode cs
  | [] => []

/-- Whether a character stands for itself in an escaped text. -/
def isOrdinary (c : Char) : Bool :=
  c ≠ '&' && c ≠ '<' && c ≠ '>' && c ≠ '\x22'

/-- An ordinary character is its own spelling. -/
theorem escapeChar_of_isOrdinary {c : Char} (h : isOrdinary c = true) : escapeChar c = [c] := by
  simp_all [isOrdinary, escapeChar]

/-- A text of ordinary characters is escaped as it is. -/
theorem flatMap_escapeChar_of_isOrdinary {cs : List Char} (h : ∀ c ∈ cs, isOrdinary c = true) :
    cs.flatMap escapeChar = cs := by
  induction cs with
  | nil => rfl
  | cons c cs ih =>
    obtain ⟨hc, hcs⟩ := List.forall_mem_cons.mp h
    rw [List.flatMap_cons, escapeChar_of_isOrdinary hc, ih hcs, List.singleton_append]

theorem escapeChar_cases (c : Char) :
    c = '&' ∨ c = '<' ∨ c = '>' ∨ c = '\x22' ∨ isOrdinary c = true := by
  by_cases h : isOrdinary c = true
  · simp [h]
  · simp only [isOrdinary, ne_eq, Bool.and_eq_true, decide_eq_true_eq] at h
    tauto

theorem decode_cons {c : Char} (h : c ≠ '&') (cs : List Char) :
    decode (c :: cs) = c :: decode cs := by
  rw [decode.eq_def]
  split <;> simp_all

/-- Reading the entities of an escaped text gives the text back. -/
theorem decode_flatMap_escapeChar : ∀ cs : List Char, decode (cs.flatMap escapeChar) = cs
  | [] => rfl
  | c :: cs => by
    have ih := decode_flatMap_escapeChar cs
    rw [List.flatMap_cons]
    rcases escapeChar_cases c with rfl | rfl | rfl | rfl | hc
    · exact congrArg ('&' :: ·) ih
    · exact congrArg ('<' :: ·) ih
    · exact congrArg ('>' :: ·) ih
    · exact congrArg ('\x22' :: ·) ih
    · rw [escapeChar_of_isOrdinary hc, List.singleton_append, decode_cons, ih]
      rintro rfl
      cases hc

theorem not_mem_escapeChar {d : Char} (hd : d = '<' ∨ d = '>' ∨ d = '\x22') (c : Char) :
    d ∉ escapeChar c := by
  rcases escapeChar_cases c with rfl | rfl | rfl | rfl | hc
  · rcases hd with rfl | rfl | rfl <;> decide
  · rcases hd with rfl | rfl | rfl <;> decide
  · rcases hd with rfl | rfl | rfl <;> decide
  · rcases hd with rfl | rfl | rfl <;> decide
  · rw [escapeChar_of_isOrdinary hc, List.mem_singleton]
    rintro rfl
    rcases hd with rfl | rfl | rfl <;> cases hc

/-- No character that delimits an element or an attribute is left in an escaped text. -/
theorem not_mem_flatMap_escapeChar {d : Char} (hd : d = '<' ∨ d = '>' ∨ d = '\x22')
    (cs : List Char) : d ∉ cs.flatMap escapeChar := by
  intro h
  obtain ⟨c, -, hc⟩ := List.mem_flatMap.mp h
  exact not_mem_escapeChar hd c hc

/-- A blank is escaped as it is, and the spelling of any other character ends in one that is
none. -/
theorem escapeChar_of_isBlank {c : Char} (h : isBlank c = true) : escapeChar c = [c] := by
  rcases escapeChar_cases c with rfl | rfl | rfl | rfl | hc
  · revert h; decide
  · revert h; decide
  · revert h; decide
  · revert h; decide
  · exact escapeChar_of_isOrdinary hc

theorem exists_escapeChar_concat {c : Char} (h : isBlank c = false) :
    ∃ cs d, escapeChar c = cs ++ [d] ∧ isBlank d = false := by
  rcases escapeChar_cases c with rfl | rfl | rfl | rfl | hc
  · exact ⟨"&amp".toList, ';', rfl, rfl⟩
  · exact ⟨"&lt".toList, ';', rfl, rfl⟩
  · exact ⟨"&gt".toList, ';', rfl, rfl⟩
  · exact ⟨"&quot".toList, ';', rfl, rfl⟩
  · exact ⟨[], c, escapeChar_of_isOrdinary hc, h⟩

/-- It is the same to trim a text and to trim it escaped. -/
theorem trimEnd_flatMap_escapeChar (cs : List Char) :
    trimEnd (cs.flatMap escapeChar) = (trimEnd cs).flatMap escapeChar := by
  induction cs using List.reverseRecOn with
  | nil => rfl
  | append_singleton cs c ih =>
    rw [List.flatMap_append, List.flatMap_singleton]
    cases hc : isBlank c with
    | true =>
      rw [escapeChar_of_isBlank hc, trimEnd_concat_of_isBlank hc, trimEnd_concat_of_isBlank hc, ih]
    | false =>
      obtain ⟨ds, d, hds, hd⟩ := exists_escapeChar_concat hc
      rw [trimEnd_concat_of_not_isBlank hc, List.flatMap_append, List.flatMap_singleton, hds,
        ← List.append_assoc, trimEnd_concat_of_not_isBlank hd]

end Docs
end SettingsCompiler
