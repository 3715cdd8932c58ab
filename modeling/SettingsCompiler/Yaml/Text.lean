/-!
# The characters of a YAML text

A text is read character by character with a position. Line breaks are brought to one
form first (`breaksNormal`), so every break is a single character : a line feed, or a
line or paragraph separator, which stay what they are. A text may hold printable
characters only (`isAllowed`).
-/

namespace SettingsCompiler.Yaml

/-! ## Classes -/

/-- A space or a tab. -/
def isBlank (c : Char) : Bool := c = ' ' || c = '\t'

/-- A line break in its normal form. -/
def isBreak (c : Char) : Bool := c = '\n' || c = '\u2028' || c = '\u2029'

/-- A blank, a line break or the end of the text is next. -/
def atGap : List Char → Bool
  | [] => true
  | c :: _ => isBlank c || isBreak c

/-- A line break or the end of the text is next. -/
def atLineEnd : List Char → Bool
  | [] => true
  | c :: _ => isBreak c

/-- A character of a name. -/
def isNameChar (c : Char) : Bool := c.isAlphanum || c = '_' || c = '-'

/-- A character that a text may hold. -/
def isAllowed (c : Char) : Bool :=
  let n := c.toNat
  n == 0x09 || n == 0x0A || n == 0x0D || (0x20 ≤ n && n ≤ 0x7E) || n == 0x85 ||
    (0xA0 ≤ n && n ≤ 0xD7FF) || (0xE000 ≤ n && n ≤ 0xFFFD) || 0x10000 ≤ n

/-- The text with each carriage return, line feed, pair of both and next-line character
as one line feed. -/
def breaksNormal : List Char → List Char
  | [] => []
  | '\r' :: '\n' :: cs => '\n' :: breaksNormal cs
  | c :: cs => (if c = '\r' || c = '\u0085' then '\n' else c) :: breaksNormal cs

/-- The text starts with the mark of a document's start or end. -/
def atDocumentMark : List Char → Bool
  | '-' :: '-' :: '-' :: cs => atGap cs
  | '.' :: '.' :: '.' :: cs => atGap cs
  | _ => false

/-! ## Positions -/

/-- A place in a text : lines before it, and characters and bytes before it on its line. -/
structure Pos where
  line : Nat
  column : Nat
  bytes : Nat
deriving DecidableEq, Repr

namespace Pos

/-- The first place of a text. -/
def start : Pos := ⟨0, 0, 0⟩

/-- The place behind a character that is no line break. -/
def next (p : Pos) (c : Char) : Pos := ⟨p.line, p.column + 1, p.bytes + c.utf8Size⟩

/-- The place behind a line break. -/
def newLine (p : Pos) : Pos := ⟨p.line + 1, 0, 0⟩

/-- The place behind characters that are no line breaks. -/
def past (p : Pos) (cs : List Char) : Pos := cs.foldl next p

end Pos

end SettingsCompiler.Yaml
