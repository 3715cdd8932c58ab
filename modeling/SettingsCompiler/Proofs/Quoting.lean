import SettingsCompiler.Header.Literal
import SettingsCompiler.Text.Blank
import Mathlib.Data.List.Infix
import Mathlib.Data.List.TakeWhile

/-!
# String literals read back

`readLiteral` reads the literal at the front of a piece of generated code : lines that end in a
backslash are joined first (`joined`), then the characters up to the closing quote are taken
with their escapes, among them octal ones, which take as many digits as there are, at most
three (`escape?`).

A quoted text reads back as the text, whatever code follows (`readsBack`) : behind the spelling
of a character the reader is between characters again (`readFrom_escapeChar`).

Names that are packed into one literal are separated by the escape of a zero character. Octal
digits at the front of a name are read as part of that escape (`readFrom_zeros`), so the names
are read back exactly if none but the first begins with such a digit (`unpacks`).
-/

namespace SettingsCompiler.Header

open Text

/-! ## A reader of literals -/

/-- Code with its lines joined where they end in a backslash. -/
def joined : List Char → List Char
  | '\\' :: '\n' :: cs => joined cs
  | c :: cs => c :: joined cs
  | [] => []

/-- The digits in base eight. -/
def isOctal (c : Char) : Bool := '0' ≤ c && c ≤ '7'

/-- The number that octal digits spell. -/
def octalValue (ds : List Char) : Nat :=
  ds.foldl (fun n d => 8 * n + (d.toNat - '0'.toNat)) 0

/-- The octal digits at the front of a text, at most `n` of them. -/
def octalRun (n : Nat) (cs : List Char) : List Char :=
  (cs.take n).takeWhile isOctal

/-- The characters that are spelled as one character behind a backslash, by that character. -/
def simpleEscapes : List (Char × Char) :=
  [('\x27', '\x27'), ('\x22', '\x22'), ('?', '?'), ('\\', '\\'), ('a', '\x07'), ('b', '\x08'),
    ('f', '\x0c'), ('n', '\n'), ('r', '\r'), ('t', '\t'), ('v', '\x0b')]

/-- The character that the text behind a backslash begins to spell, and how many characters of
the text belong to it. An octal number beyond 127 stands for a byte that is no character. -/
def escape? (cs : List Char) : Option (Char × Nat) :=
  match octalRun 3 cs with
  | [] => (cs.head?.bind fun c => simpleEscapes.lookup c).map fun d => (d, 1)
  | ds => if octalValue ds < 128 then some (Char.ofNat (octalValue ds), ds.length) else none

/-- What is read of a literal, with `pre` read before it. -/
def prepend (pre : List Char) (read : List Char × List Char) : List Char × List Char :=
  (pre ++ read.1, read.2)

/-- What is read from a literal up to its closing quote, and the code behind it ; the next
`skip` characters belong to an escape that has been read. -/
def readFrom : Nat → List Char → Option (List Char × List Char)
  | _, [] => none
  | skip + 1, _ :: cs => readFrom skip cs
  | 0, c :: cs =>
    if c = '\x22' then some ([], cs)
    else if c = '\n' then none
    else if c = '\\' then
      (escape? cs).bind fun (d, n) => (readFrom n cs).map (prepend [d])
    else (readFrom 0 cs).map (prepend [c])

/-- The text of the string literal that code begins with, and the code behind it. The literal ends
at its closing quote : a name glued to the quote is left to the code behind. -/
def readLiteral (code : List Char) : Option (List Char × List Char) :=
  match joined code with
  | '\x22' :: cs => readFrom 0 cs
  | _ => none

/-! ## Joined lines -/

/-- A character is not joined with the next line unless it is a backslash in front of a line
feed. -/
theorem joined_cons {c : Char} {cs : List Char} (h : c = '\\' → cs.head? ≠ some '\n') :
    joined (c :: cs) = c :: joined cs := by
  rw [joined.eq_def]
  split
  · next hcs =>
    obtain ⟨rfl, rfl⟩ := List.cons.inj hcs
    exact absurd rfl (h rfl)
  · next hcs =>
    obtain ⟨rfl, rfl⟩ := List.cons.inj hcs
    rfl
  · next hcs => cases hcs

/-- A line stays as it is, unless it ends in a backslash and the code goes on in a new line. -/
theorem joined_append {cs : List Char} : ∀ {line : List Char}, '\n' ∉ line →
    (line.getLast? = some '\\' → cs.head? ≠ some '\n') → joined (line ++ cs) = line ++ joined cs
  | [], _, _ => rfl
  | c :: line, hline, hlast => by
    obtain ⟨-, hrest⟩ := List.ne_and_not_mem_of_not_mem_cons hline
    have ih : joined (line ++ cs) = line ++ joined cs := by
      refine joined_append hrest fun h => hlast ?_
      rw [List.getLast?_cons, h, Option.getD_some]
    have hcons : joined (c :: (line ++ cs)) = c :: joined (line ++ cs) := by
      refine joined_cons fun hc => ?_
      cases line with
      | nil => exact hlast (hc ▸ rfl)
      | cons d line =>
        intro hd
        exact hrest (Option.some.inj hd ▸ List.mem_cons_self)
    rw [List.cons_append, hcons, ih, List.cons_append]

/-! ## One character -/

theorem map_prepend_nil (read : Option (List Char × List Char)) :
    read.map (prepend []) = read := by
  cases read <;> rfl

theorem map_prepend (pre pre' : List Char) (read : Option (List Char × List Char)) :
    (read.map (prepend pre')).map (prepend pre) = read.map (prepend (pre ++ pre')) := by
  cases read with
  | none => rfl
  | some r => simp [prepend]

theorem escapeChar_cases (c : Char) :
    c = '\\' ∨ c = '\x22' ∨ c = '\n' ∨ c = '\r' ∨ c = '\t' ∨
      (c ≠ '\\' ∧ c ≠ '\x22' ∧ c ≠ '\n' ∧ c ≠ '\r' ∧ c ≠ '\t' ∧ escapeChar c = [c]) := by
  unfold escapeChar
  split_ifs <;> simp_all

/-- The characters of an escape that has been read are skipped. -/
theorem readFrom_skip (cs : List Char) : ∀ taken : List Char,
    readFrom taken.length (taken ++ cs) = readFrom 0 cs
  | [] => rfl
  | c :: taken => by
    have ih := readFrom_skip cs taken
    rw [List.length_cons, List.cons_append, readFrom, ih]

/-- Behind a backslash the reader takes the whole escape for its character. -/
theorem readFrom_escape {e cs : List Char} {d : Char} (h : escape? (e ++ cs) = some (d, e.length)) :
    readFrom 0 ('\\' :: (e ++ cs)) = (readFrom 0 cs).map (prepend [d]) := by
  have hread : readFrom 0 ('\\' :: (e ++ cs)) =
      (escape? (e ++ cs)).bind fun r => (readFrom r.2 (e ++ cs)).map (prepend [r.1]) := by
    simp [readFrom]
  rw [hread, h, Option.bind_some, readFrom_skip]

theorem escape?_simple {c d : Char} (cs : List Char) (hc : isOctal c = false)
    (h : simpleEscapes.lookup c = some d) : escape? (c :: cs) = some (d, 1) := by
  simp [escape?, octalRun, hc, h]

/-- Behind the spelling of a character the reader is at the start of the next one. -/
theorem readFrom_escapeChar (c : Char) (cs : List Char) :
    readFrom 0 (escapeChar c ++ cs) = (readFrom 0 cs).map (prepend [c]) := by
  have simple (e : Char) {d : Char} (he : isOctal e = false) (h : simpleEscapes.lookup e = some d) :
      readFrom 0 ('\\' :: ([e] ++ cs)) = (readFrom 0 cs).map (prepend [d]) :=
    readFrom_escape (escape?_simple cs he h)
  rcases escapeChar_cases c with rfl | rfl | rfl | rfl | rfl | ⟨hslash, hquote, hline, -, -, hc⟩
  · exact simple '\\' rfl rfl
  · exact simple '\x22' rfl rfl
  · exact simple 'n' rfl rfl
  · exact simple 'r' rfl rfl
  · exact simple 't' rfl rfl
  · rw [hc, List.singleton_append, readFrom, if_neg hquote, if_neg hline, if_neg hslash]

/-- The spelling of a text is read as the text, character by character. -/
theorem readFrom_escapeText (cs : List Char) : ∀ s : List Char,
    readFrom 0 (escapeText s ++ cs) = (readFrom 0 cs).map (prepend s)
  | [] => (map_prepend_nil _).symm
  | c :: s => by
    have ih := readFrom_escapeText cs s
    have hsplit : escapeText (c :: s) ++ cs = escapeChar c ++ (escapeText s ++ cs) := by
      rw [escapeText, List.flatMap_cons, List.append_assoc, escapeText]
    rw [hsplit, readFrom_escapeChar, ih, map_prepend, List.singleton_append]

/-! ## One text -/

/-- No line break is left in the spelling of a text. -/
theorem not_mem_escapeText {d : Char} (hd : d = '\n' ∨ d = '\r') (s : List Char) :
    d ∉ escapeText s := by
  intro h
  obtain ⟨c, -, hc⟩ := List.mem_flatMap.mp h
  rcases escapeChar_cases c with rfl | rfl | rfl | rfl | rfl | ⟨-, -, hline, hreturn, -, heq⟩
  iterate 5 rcases hd with rfl | rfl <;> revert hc <;> decide
  rw [heq, List.mem_singleton] at hc
  subst hc
  exact hd.elim hline hreturn

/-- A literal on one line is left as it is, and read up to its closing quote. -/
theorem joined_literal {body : List Char} (h : '\n' ∉ body) (code : List Char) :
    joined ('\x22' :: (body ++ ['\x22']) ++ code) = '\x22' :: (body ++ ['\x22']) ++ joined code := by
  refine joined_append (by simp [h]) fun hlast => ?_
  rw [← List.cons_append, List.getLast?_concat] at hlast
  exact absurd (Option.some.inj hlast) (by decide)

/-- A literal on one line is read from its opening quote on, whatever code follows. -/
theorem readLiteral_literal {body : List Char} (h : '\n' ∉ body) (code : List Char) :
    readLiteral ('\x22' :: (body ++ ['\x22']) ++ code) =
      readFrom 0 (body ++ '\x22' :: joined code) := by
  rw [readLiteral, joined_literal h]
  simp

theorem escapeChar_shape (c : Char) :
    (c ≠ '\\' ∧ c ≠ '\x22' ∧ escapeChar c = [c]) ∨ ∃ d, escapeChar c = ['\\', d] := by
  rcases escapeChar_cases c with rfl | rfl | rfl | rfl | rfl | ⟨hslash, hquote, -, -, -, hc⟩
  iterate 5 exact .inr ⟨_, rfl⟩
  exact .inl ⟨hslash, hquote, hc⟩

/-- What is read of a name behind the escape of a zero character : the octal digits at its front,
at most two, belong to the escape. -/
def behindZero (name : List Char) : List Char :=
  Char.ofNat (octalValue (octalRun 2 name)) :: name.drop (octalRun 2 name).length

/-- What is read from the literal of several names. -/
def unpacked : List (List Char) → List Char
  | [] => []
  | name :: names => name ++ names.flatMap behindZero

/-- Whether the first character of a name is an octal digit. -/
def beginsOctal (name : List Char) : Bool := name.head?.any isOctal

theorem octalRun_cons (n : Nat) (c : Char) (cs : List Char) :
    octalRun (n + 1) (c :: cs) = if isOctal c = true then c :: octalRun n cs else [] := by
  rw [octalRun, List.take_succ_cons, List.takeWhile_cons, ← octalRun]

theorem octalRun_of_head? {n : Nat} {cs : List Char} (h : cs.head?.any isOctal = false) :
    octalRun n cs = [] := by
  cases cs with
  | nil => simp [octalRun]
  | cons c cs =>
    cases n with
    | zero => rfl
    | succ n =>
      have hc : isOctal c = false := h
      simp [octalRun_cons, hc]

/-- No digit is taken from a name that does not begin with an octal one. -/
theorem octalRun_two_eq_nil_iff {name : List Char} :
    octalRun 2 name = [] ↔ beginsOctal name = false := by
  cases name with
  | nil => simp [octalRun, beginsOctal]
  | cons c cs => simp [octalRun_cons, beginsOctal]

theorem prefix_octalRun (n : Nat) (cs : List Char) : octalRun n cs <+: cs :=
  ( List.takeWhile_prefix _).trans ( List.take_prefix n cs)

theorem length_octalRun_le (n : Nat) (cs : List Char) : (octalRun n cs).length ≤ n :=
  Nat.le_trans ( List.takeWhile_prefix _).length_le (List.length_take_le n cs)

theorem isOctal_of_mem_octalRun {n : Nat} {cs : List Char} {c : Char} (h : c ∈ octalRun n cs) :
    isOctal c = true :=
  List.mem_takeWhile_imp h

theorem toNat_of_isOctal {c : Char} (h : isOctal c = true) : c.toNat - '0'.toNat < 8 := by
  simp only [isOctal, Bool.and_eq_true, decide_eq_true_eq] at h
  have hle : c.toNat ≤ '7'.toNat := h.2
  have hseven : '7'.toNat = 55 := rfl
  have hzero : '0'.toNat = 48 := rfl
  omega

/-- Two octal digits spell a small number. -/
theorem octalValue_lt : ∀ {ds : List Char}, (∀ d ∈ ds, isOctal d = true) → ds.length ≤ 2 →
    octalValue ds < 128
  | [], _, _ => by decide
  | [d], h, _ => by
    have hd := toNat_of_isOctal (h d (by simp))
    simp only [octalValue, List.foldl_cons, List.foldl_nil]
    omega
  | [d, e], h, _ => by
    have hd := toNat_of_isOctal (h d (by simp))
    have he := toNat_of_isOctal (h e (by simp))
    simp only [octalValue, List.foldl_cons, List.foldl_nil]
    omega
  | _ :: _ :: _ :: _, _, hlen => by simp at hlen

/-- An octal digit is spelled as it is, and no other spelling begins with one. -/
theorem escapeChar_of_isOctal {c : Char} (h : isOctal c = true) : escapeChar c = [c] := by
  rcases escapeChar_cases c with rfl | rfl | rfl | rfl | rfl | ⟨-, -, -, -, -, hc⟩
  iterate 5 revert h; decide
  exact hc

/-- The spelling of another character does not begin with an octal digit. -/
theorem exists_escapeChar_cons {c : Char} (h : isOctal c = false) :
    ∃ d ds, escapeChar c = d :: ds ∧ isOctal d = false := by
  rcases escapeChar_shape c with ⟨-, -, hc⟩ | ⟨d, hc⟩
  · exact ⟨c, [], hc, h⟩
  · exact ⟨'\\', [d], hc, rfl⟩

theorem escapeText_cons (c : Char) (s : List Char) :
    escapeText (c :: s) = escapeChar c ++ escapeText s := rfl

theorem escapeText_append (s s' : List Char) :
    escapeText (s ++ s') = escapeText s ++ escapeText s' :=
  List.flatMap_append

theorem escapeText_of_isOctal {s : List Char} (h : ∀ c ∈ s, isOctal c = true) :
    escapeText s = s := by
  induction s with
  | nil => rfl
  | cons c s ih =>
    obtain ⟨hc, hs⟩ := List.forall_mem_cons.mp h
    rw [escapeText_cons, escapeChar_of_isOctal hc, ih hs, List.singleton_append]

/-- The spelling of a text begins with the octal digits that the text begins with. -/
theorem octalRun_escapeText {code : List Char} (hcode : code.head?.any isOctal = false) :
    ∀ (n : Nat) (s : List Char), octalRun n (escapeText s ++ code) = octalRun n s
  | n, [] => by
    have hnil : octalRun n [] = [] := octalRun_of_head? rfl
    rw [hnil]
    exact octalRun_of_head? hcode
  | 0, c :: s => rfl
  | n + 1, c :: s => by
    have ih := octalRun_escapeText hcode n s
    rw [escapeText_cons, List.append_assoc, octalRun_cons]
    split
    · next hc => rw [escapeChar_of_isOctal hc, List.singleton_append, octalRun_cons, if_pos hc, ih]
    · next hc =>
      obtain ⟨d, ds, hd, hoctal⟩ := exists_escapeChar_cons (Bool.not_eq_true _ ▸ hc)
      rw [hd, List.cons_append, octalRun_cons, if_neg (by simp [hoctal])]

/-- Behind a zero escape a name is read without the digits that the escape takes. -/
theorem readFrom_zero (name : List Char) {code : List Char}
    (hcode : code.head?.any isOctal = false) :
    readFrom 0 ('\\' :: '0' :: (escapeText name ++ code)) =
      (readFrom 0 code).map (prepend (behindZero name)) := by
  let digits := octalRun 2 name
  let rest := escapeText (name.drop digits.length) ++ code
  have hoctal : ∀ c ∈ digits, isOctal c = true := fun c => isOctal_of_mem_octalRun
  have hspelled : escapeText name ++ code = digits ++ rest := by
    have hname : name = digits ++ name.drop digits.length :=
      List.prefix_append_drop (prefix_octalRun 2 name)
    conv_lhs => rw [hname, escapeText_append, escapeText_of_isOctal hoctal, List.append_assoc]
  have hescape : escape? ('0' :: digits ++ rest) =
      some (Char.ofNat (octalValue digits), ('0' :: digits).length) := by
    have hrun : octalRun 3 ('0' :: digits ++ rest) = '0' :: digits := by
      have hzero : isOctal '0' = true := rfl
      rw [List.cons_append, ← hspelled, octalRun_cons, if_pos hzero, octalRun_escapeText hcode]
    have hvalue : octalValue ('0' :: digits) = octalValue digits := rfl
    rw [escape?, hrun]
    simp only [hvalue, octalValue_lt hoctal (length_octalRun_le 2 name), if_true]
  rw [hspelled, ← List.cons_append, readFrom_escape hescape, readFrom_escapeText, map_prepend]
  rfl

/-- What stands in the literal behind the first name begins with an escape or ends it. -/
theorem readFrom_zeros (code : List Char) : ∀ names : List (List Char),
    readFrom 0 ((names.flatMap fun name => '\\' :: '0' :: escapeText name) ++ '\x22' :: code) =
      some (names.flatMap behindZero, code)
  | [] => rfl
  | name :: names => by
    have ih := readFrom_zeros code names
    have hcode : ((names.flatMap fun name => '\\' :: '0' :: escapeText name) ++
        '\x22' :: code).head?.any isOctal = false := by
      cases names <;> rfl
    rw [List.flatMap_cons, List.cons_append, List.cons_append, List.append_assoc,
      List.cons_append, readFrom_zero name hcode, ih]
    rfl

theorem escapeJoined_cons (name : List Char) : ∀ names : List (List Char),
    escapeJoined (name :: names) =
      escapeText name ++ names.flatMap fun name => '\\' :: '0' :: escapeText name
  | [] => (List.append_nil _).symm
  | next :: names => by
    rw [escapeJoined, escapeJoined_cons next names]
    rfl

theorem not_mem_escapeJoined : ∀ names : List (List Char), '\n' ∉ escapeJoined names
  | [] => List.not_mem_nil
  | name :: names => by
    have hline := not_mem_escapeText (.inl rfl : '\n' = '\n' ∨ _)
    rw [escapeJoined_cons]
    simp [hline]

/-- The literal of several names is read as what is left of them behind the escapes. -/
theorem readLiteral_quoteJoined (names : List String) (code : List Char) :
    readLiteral ((quoteJoined names).toList ++ code) =
      some (unpacked (names.map String.toList), joined code) := by
  rw [quoteJoined, String.toList_ofList, List.cons_append,
    readLiteral_literal (not_mem_escapeJoined _)]
  cases names with
  | nil => rfl
  | cons name names =>
    rw [List.map_cons, escapeJoined_cons, List.append_assoc, readFrom_escapeText, readFrom_zeros]
    rfl

/-! ## Names read back -/

/-- Names with zero characters between them. -/
def zeroSeparated (names : List (List Char)) : List Char :=
  List.intercalate ['\x00'] names

theorem zeroSeparated_cons (name : List Char) : ∀ names : List (List Char),
    zeroSeparated (name :: names) = name ++ names.flatMap fun name => '\x00' :: name
  | [] => by simp [zeroSeparated, List.intercalate]
  | next :: names => by
    have ih := zeroSeparated_cons next names
    simp only [zeroSeparated, List.intercalate, List.intersperse_cons_cons, List.flatten_cons] at ih ⊢
    rw [ih]
    rfl

/-- A name loses the digits that the escape in front of it takes. -/
theorem length_behindZero (name : List Char) :
    (behindZero name).length + (octalRun 2 name).length = name.length + 1 := by
  have hle := (prefix_octalRun 2 name).length_le
  simp only [behindZero, List.length_cons, List.length_drop]
  omega

/-- A name is whole behind the escape of a zero character exactly if it does not begin with an
octal digit. -/
theorem behindZero_eq_iff {name : List Char} :
    behindZero name = '\x00' :: name ↔ beginsOctal name = false := by
  rw [← octalRun_two_eq_nil_iff]
  constructor
  · intro h
    have hlen := congrArg List.length h
    have htaken := length_behindZero name
    rw [List.length_cons] at hlen
    exact List.length_eq_zero_iff.mp (by omega)
  · intro h
    rw [behindZero, h]
    rfl

theorem length_flatMap_behindZero_le (names : List (List Char)) :
    (names.flatMap behindZero).length ≤ (names.flatMap fun name => '\x00' :: name).length := by
  induction names with
  | nil => exact Nat.le_refl 0
  | cons name names ih =>
    have htaken := length_behindZero name
    simp only [List.flatMap_cons, List.length_append, List.length_cons]
    omega

/-- The names are read as they are if no digit is taken, and less is read otherwise. -/
theorem flatMap_behindZero_eq_iff {names : List (List Char)} :
    names.flatMap behindZero = (names.flatMap fun name => '\x00' :: name) ↔
      ∀ name ∈ names, beginsOctal name = false := by
  induction names with
  | nil => simp
  | cons name names ih =>
    rw [List.forall_mem_cons, ← ih, ← behindZero_eq_iff, List.flatMap_cons, List.flatMap_cons]
    constructor
    · intro h
      have hlen := congrArg List.length h
      have htaken := length_behindZero name
      have hrest := length_flatMap_behindZero_le names
      simp only [List.length_append, List.length_cons] at hlen
      exact List.append_inj h (by rw [List.length_cons]; omega)
    · rintro ⟨hname, hnames⟩
      rw [hname, hnames]

/-- All names are whole exactly if none but the first begins with an octal digit. -/
theorem unpacked_eq_iff {names : List (List Char)} :
    unpacked names = zeroSeparated names ↔ ∀ name ∈ names.tail, beginsOctal name = false := by
  cases names with
  | nil => simp [unpacked, zeroSeparated, List.intercalate]
  | cons name names =>
    rw [unpacked, zeroSeparated_cons, List.append_cancel_left_eq]
    exact flatMap_behindZero_eq_iff

/-- Stepping from zero to zero gives the names that have none back. -/
theorem pieces_zeroSeparated : ∀ {names : List (List Char)}, names ≠ [] →
    (∀ name ∈ names, '\x00' ∉ name) → pieces (· = '\x00') (zeroSeparated names) = names
  | name :: names, _, h => by
    obtain ⟨hname, hnames⟩ := List.forall_mem_cons.mp h
    have hzero : ∀ c ∈ name, decide (c = '\x00') = false := fun c hc =>
      decide_eq_false fun heq => hname (heq ▸ hc)
    rw [zeroSeparated_cons]
    cases names with
    | nil =>
      rw [List.flatMap_nil, List.append_nil]
      exact pieces_of_forall hzero
    | cons next names =>
      have ih := pieces_zeroSeparated (List.cons_ne_nil next names) hnames
      rw [zeroSeparated_cons] at ih
      rw [List.flatMap_cons, List.cons_append, pieces_append_cons hzero (by decide), ih]

/-- What the literal of several names is to a reader, in front of any code : one literal that
ends where it ends. The text is the names with zero characters between them, and stepping from
zero to zero gives the names, exactly if no name but the first begins with an octal digit. -/
structure Unpacks (names : List String) : Prop where
  reads : ∀ code, readLiteral ((quoteJoined names).toList ++ code) =
    some (unpacked (names.map String.toList), joined code)
  text_iff : unpacked (names.map String.toList) = zeroSeparated (names.map String.toList) ↔
    ∀ name ∈ names.tail, beginsOctal name.toList = false
  names_iff : pieces (· = '\x00') (unpacked (names.map String.toList)) = names.map String.toList ↔
    ∀ name ∈ names.tail, beginsOctal name.toList = false

/-- Any names without zero characters come as one literal ; stepping through it gives them back
unless a digit is lost to an escape. -/
theorem unpacks {names : List String} (hne : names ≠ [])
    (hzero : ∀ name ∈ names, '\x00' ∉ name.toList) : Unpacks names := by
  have hnames : names.map String.toList ≠ [] := by simpa using hne
  have hnames_zero : ∀ name ∈ names.map String.toList, '\x00' ∉ name := by simpa using hzero
  have htext : unpacked (names.map String.toList) = zeroSeparated (names.map String.toList) ↔
      ∀ name ∈ names.tail, beginsOctal name.toList = false := by
    rw [unpacked_eq_iff, ← List.map_tail, List.forall_mem_map]
  refine ⟨readLiteral_quoteJoined names, htext, ?_⟩
  rw [← htext]
  constructor
  · intro hpieces
    have hjoined := intercalate_pieces '\x00' (unpacked (names.map String.toList))
    rw [hpieces] at hjoined
    exact hjoined.symm
  · intro h
    rw [h]
    exact pieces_zeroSeparated hnames hnames_zero

/-- Names that need escapes, behind a name that is empty and one that begins with a digit that is
not octal. -/
def signs : List String := ["Zoom", "", "8Up", "\x227\\0"]

/-- The digit 8 is no octal one, so the third name of `signs` is whole. -/
theorem unpacks_signs :
    signs ≠ [] ∧ (∀ name ∈ signs, '\x00' ∉ name.toList) ∧ Unpacks signs ∧
      readLiteral (quoteJoined signs).toList = some ("Zoom\x00\x008Up\x00\x227\\0".toList, []) := by
  have hne : signs ≠ [] := by decide
  have hzero : ∀ name ∈ signs, '\x00' ∉ name.toList := by decide
  have hread := (unpacks hne hzero).reads []
  rw [List.append_nil] at hread
  exact ⟨hne, hzero, unpacks hne hzero, hread⟩

/-- A name that begins with an octal digit is read with the escape in front of it. -/
theorem not_unpacked_zoom : ∃ text, readLiteral (quoteJoined ["Zoom", "2Up"]).toList = some (text, []) ∧
    text = "Zoom\x02Up".toList ∧ text ≠ zeroSeparated ["Zoom".toList, "2Up".toList] ∧
    pieces (· = '\x00') text ≠ ["Zoom".toList, "2Up".toList] :=
  ⟨_, rfl, rfl, by decide, by decide⟩

end SettingsCompiler.Header
