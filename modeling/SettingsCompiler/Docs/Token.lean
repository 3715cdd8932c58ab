import SettingsCompiler.Text.Blank
import SettingsCompiler.Text.Lines

/-!
# Words and links of a comment

A comment is a sequence of words, some of which together form a link `[label](url)`. The
label may hold blanks, so an opening bracket keeps absorbing the words after it until
they close the link. What stands directly before the bracket and after the closing
parenthesis stays with the link. A bracket that never closes, or that another bracket
follows first, opens nothing : its words are plain words.

`tokenize` reads the words once, from left to right, with the words since the last open
bracket in hand (`Opened`).
-/

namespace SettingsCompiler.Docs

/-- A unit of a comment that is never split. -/
inductive Token
  | word (text : String)
  /-- A link with the text glued before and after it. -/
  | link (lead label url tail : String)
deriving DecidableEq, Repr

/-- A text before and after the first occurrence of a character. -/
def splitAtChar (c : Char) : List Char → Option (List Char × List Char)
  | [] => none
  | d :: ds =>
    if d = c then some ([], ds)
    else (splitAtChar c ds).map fun (before, after) => (d :: before, after)

theorem splitAtChar_eq_some_iff {c : Char} : ∀ {cs before after : List Char},
    splitAtChar c cs = some (before, after) ↔ cs = before ++ c :: after ∧ c ∉ before
  | [], before, after => by simp [splitAtChar]
  | d :: cs, before, after => by
    have ih (before : List Char) := @splitAtChar_eq_some_iff c cs before after
    rw [splitAtChar]
    split
    · next hd =>
      cases before with
      | nil => simp [hd]
      | cons e before =>
        constructor
        · intro h
          cases h
        · rintro ⟨h, hfirst⟩
          obtain ⟨rfl, -⟩ := List.cons.inj h
          exact absurd (hd ▸ List.mem_cons_self) hfirst
    · next hd =>
      rw [Option.map_eq_some_iff]
      constructor
      · rintro ⟨⟨b, a⟩, h, heq⟩
        obtain ⟨rfl, rfl⟩ := Prod.mk.inj heq
        obtain ⟨rfl, hfirst⟩ := (ih b).mp h
        exact ⟨rfl, List.not_mem_cons_of_ne_of_not_mem (Ne.symm hd) hfirst⟩
      · rintro ⟨h, hfirst⟩
        cases before with
        | nil => exact absurd (List.cons.inj h).1 hd
        | cons e before =>
          obtain ⟨rfl, hcs⟩ := List.cons.inj h
          have hrest := (ih before).mpr ⟨hcs, fun hmem => hfirst (List.mem_cons_of_mem _ hmem)⟩
          exact ⟨(before, after), hrest, rfl⟩

theorem splitAtChar_eq_none_iff {c : Char} {cs : List Char} :
    splitAtChar c cs = none ↔ c ∉ cs := by
  rw [Option.eq_none_iff_forall_ne_some]
  constructor
  · intro h hmem
    obtain ⟨before, after, hcs, hfirst⟩ := List.eq_append_cons_of_mem hmem
    exact h (before, after) (splitAtChar_eq_some_iff.mpr ⟨hcs, hfirst⟩)
  · rintro hmem ⟨before, after⟩ h
    obtain ⟨rfl, -⟩ := splitAtChar_eq_some_iff.mp h
    exact hmem (List.mem_append_right _ List.mem_cons_self)

/-- A text before and after the first `](`. -/
def splitAtClose : List Char → Option (List Char × List Char)
  | ']' :: '(' :: cs => some ([], cs)
  | c :: cs => (splitAtClose cs).map fun (before, after) => (c :: before, after)
  | [] => none

theorem splitAtClose_eq_some_iff {cs before after : List Char} :
    splitAtClose cs = some (before, after) ↔
      cs = before ++ ']' :: '(' :: after ∧ ¬[']', '('] <:+: before := by
  fun_induction splitAtClose cs generalizing before with
  | case1 cs =>
    constructor
    · intro h
      cases h
      exact ⟨rfl, by simp⟩
    · rintro ⟨h, hfirst⟩
      match before with
      | [] =>
        cases h
        rfl
      | [c] => cases h
      | c :: d :: before =>
        cases h
        exact absurd (List.prefix_append [']', '('] before).isInfix hfirst
  | case2 c cs hne ih =>
    rw [Option.map_eq_some_iff]
    constructor
    · rintro ⟨⟨b, a⟩, h, heq⟩
      obtain ⟨rfl, rfl⟩ := Prod.mk.inj heq
      obtain ⟨rfl, hfirst⟩ := ih.mp h
      refine ⟨rfl, fun hin => ?_⟩
      rcases List.infix_cons_iff.mp hin with ⟨rest, hrest⟩ | hin
      · cases hrest
        exact hne _ rfl rfl
      · exact hfirst hin
    · rintro ⟨h, hfirst⟩
      cases before with
      | nil =>
        obtain ⟨rfl, rfl⟩ := List.cons.inj h
        exact absurd rfl (hne _ rfl)
      | cons e before =>
        obtain ⟨rfl, hcs⟩ := List.cons.inj h
        have hrest := ih.mpr ⟨hcs, fun hin => hfirst (List.infix_cons_iff.mpr (.inr hin))⟩
        exact ⟨(before, after), hrest, rfl⟩
  | case3 => simp

/-- Label, target and rest of a text that begins with `[` and holds a whole link. -/
def linkParts? (cs : List Char) : Option (List Char × List Char × List Char) := do
  let body ← match cs with
    | '[' :: body => some body
    | _ => none
  let (label, rest) ← splitAtClose body
  let (url, tail) ← splitAtChar ')' rest
  if url.isEmpty || url.any Text.isBlank then none else some (label, url, tail)

/-- Words with single spaces between. -/
def joinWords : List (List Char) → List Char
  | [] => []
  | [w] => w
  | w :: v :: ws => w ++ ' ' :: joinWords (v :: ws)

/-- Words since an opening bracket. -/
structure Opened where
  /-- The text before the bracket in its word. -/
  lead : List Char
  /-- The word from the bracket on. -/
  first : List Char
  /-- The words after it. -/
  others : List (List Char)

namespace Opened

/-- The words of a bracket that opened nothing. -/
def giveBack (o : Opened) : List Token :=
  .word (String.ofList (o.lead ++ o.first)) :: o.others.map fun w => .word (String.ofList w)

/-- The link that the words form, if they do. -/
def link? (o : Opened) : Option Token :=
  (linkParts? (joinWords (o.first :: o.others))).map fun (label, url, tail) =>
    .link (String.ofList o.lead) (String.ofList label) (String.ofList url) (String.ofList tail)

end Opened

/-- The tokens of the words that follow the ones in hand. -/
def tokensFrom : Option Opened → List (List Char) → List Token
  | none, [] => []
  | some o, [] => o.giveBack
  | opened, w :: ws =>
    match splitAtChar '[' w, opened with
    | none, none => .word (String.ofList w) :: tokensFrom none ws
    | none, some o =>
      let o := { o with others := o.others ++ [w] }
      match o.link? with
      | some link => link :: tokensFrom none ws
      | none => tokensFrom (some o) ws
    | some (lead, after), opened =>
      let given := match opened with
        | some o => o.giveBack
        | none => []
      let o : Opened := ⟨lead, '[' :: after, []⟩
      given ++ match o.link? with
        | some link => link :: tokensFrom none ws
        | none => tokensFrom (some o) ws

/-- The words and links of a text. -/
def tokenize (text : String) : List Token :=
  tokensFrom none (Text.words text.toList)

end SettingsCompiler.Docs
