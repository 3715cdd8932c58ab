/-!
# Replacing a pattern in a text

`substitute` replaces the occurrences of a non-empty pattern from left to right : each
match is consumed whole and what is put in its place is not scanned again. The scan
counts the characters of a match still to be passed over (`substituteFrom`), which is
the same as dropping them (`substituteFrom_eq_drop`).
-/

namespace SettingsCompiler.Text

/-- The text with every occurrence of `pat` replaced by `new`, once `skip` characters
have been passed over ; an empty pattern occurs nowhere. -/
def substituteFrom (pat new : List Char) : Nat → List Char → List Char
  | _, [] => []
  | skip + 1, _ :: cs => substituteFrom pat new skip cs
  | 0, c :: cs =>
    if !pat.isEmpty && pat.isPrefixOf (c :: cs) then
      new ++ substituteFrom pat new (pat.length - 1) cs
    else c :: substituteFrom pat new 0 cs

/-- The text with every occurrence of `pat` replaced by `new`. -/
def substitute (pat new cs : List Char) : List Char :=
  substituteFrom pat new 0 cs

theorem substituteFrom_eq_drop (pat new : List Char) :
    ∀ (skip : Nat) (cs : List Char),
      substituteFrom pat new skip cs = substitute pat new (cs.drop skip)
  | 0, cs => by simp [substitute]
  | _ + 1, [] => by simp [substitute, substituteFrom]
  | skip + 1, c :: cs => by
    rw [substituteFrom, substituteFrom_eq_drop pat new skip cs, List.drop_succ_cons]

end SettingsCompiler.Text
