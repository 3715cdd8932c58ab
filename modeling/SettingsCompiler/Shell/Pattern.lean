import SettingsCompiler.Shell.CharSet

/-!
# Patterns of names

A pattern matches a whole text : a question mark any character, an asterisk any text,
and brackets a character of a set. A quoted character is just itself.

They are the patterns of `sh`, a formatter that a configuration may name. No theorem is about
them.
-/

namespace SettingsCompiler.Shell

/-- A part of a pattern. -/
inductive Atom
  | char (c : Char)
  | any
  | many
  | oneOf (s : CharSet)

/-- A pattern. -/
abbrev Pattern := List Atom

namespace Pattern

/-- The pattern of characters, each with whether it is quoted ; `skip` of them belong to
brackets that have been read. -/
def ofCharsFrom : Nat → List (Char × Bool) → Pattern
  | _, [] => []
  | skip + 1, _ :: cs => ofCharsFrom skip cs
  | 0, (c, quoted) :: cs =>
    if quoted then .char c :: ofCharsFrom 0 cs
    else if c = '?' then .any :: ofCharsFrom 0 cs
    else if c = '*' then .many :: ofCharsFrom 0 cs
    else if c = '[' then
      match CharSet.ofBrackets? ['!', '^'] (cs.map Prod.fst) with
      | some (s, rest) => .oneOf s :: ofCharsFrom (cs.length - rest.length) cs
      | none => .char c :: ofCharsFrom 0 cs
    else .char c :: ofCharsFrom 0 cs

/-- The pattern of characters, each with whether it is quoted. -/
def ofChars (cs : List (Char × Bool)) : Pattern := ofCharsFrom 0 cs

/-- Whether any part of a pattern is more than a character. -/
def isProper (p : Pattern) : Bool :=
  p.any fun
    | .char _ => false
    | _ => true

/-- Whether a test holds of a text or of what is left of it behind some characters. -/
def anySuffix (test : List Char → Bool) : List Char → Bool
  | [] => test []
  | c :: cs => test (c :: cs) || anySuffix test cs

/-- Whether a pattern matches a text. -/
def accepts : Pattern → List Char → Bool
  | [], cs => cs.isEmpty
  | .many :: p, cs => anySuffix (accepts p) cs
  | .char d :: p, c :: cs => c == d && accepts p cs
  | .any :: p, _ :: cs => accepts p cs
  | .oneOf s :: p, c :: cs => s.contains c && accepts p cs
  | _ :: _, [] => false

/-- The text without what the pattern matches at its start or its end. -/
def trim (p : Pattern) (atEnd longest : Bool) (cs : List Char) : List Char :=
  let counts := List.range (cs.length + 1)
  let counts := if longest then counts.reverse else counts
  let part (n : Nat) : List Char := if atEnd then cs.drop (cs.length - n) else cs.take n
  match counts.find? fun n => p.accepts (part n) with
  | some n => if atEnd then cs.take (cs.length - n) else cs.drop n
  | none => cs

end Pattern

end SettingsCompiler.Shell
