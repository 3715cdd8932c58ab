import SettingsCompiler.Yaml.Text
import SettingsCompiler.Text.Digits

/-!
# Scalars in a YAML text

The three ways to write a scalar : plain, between quotes, and as a block of lines. Each
reader goes through the text one character at a time with what it has read so far in
hand, and returns the scalar's text, the rest and its place. Line breaks inside a plain
or quoted scalar fold : a single one becomes a space, and of several the first is
dropped (`folded`).
-/

namespace SettingsCompiler.Yaml

/-- What a reader of a scalar found. -/
structure Scanned where
  text : String
  rest : List Char
  pos : Pos
  /-- Line breaks follow the scalar and have been read. -/
  pastBreaks : Bool

/-- What a run of line breaks between words stands for. -/
def folded : List Char → List Char
  | ['\n'] => [' ']
  | '\n' :: more => more
  | breaks => breaks

/-! ## Plain scalars -/

/-- A plain scalar under way : its text so far in reverse, and the blanks or line breaks
read since. -/
structure PlainDraft where
  text : List Char
  blanks : List Char
  breaks : List Char

/-- The text with what stands between it and a next word. -/
def PlainDraft.joined (d : PlainDraft) : List Char :=
  if d.breaks.isEmpty then d.blanks ++ d.text else (folded d.breaks).reverse ++ d.text

/-- The characters that end a plain scalar inside brackets. -/
def isFlowIndicator (c : Char) : Bool :=
  c = ',' || c = '[' || c = ']' || c = '\x7b' || c = '\x7d'

/-- A plain scalar, inside brackets iff `flow`. Outside of them its later lines stand at
column `least` or further. -/
def scanPlain (flow : Bool) (least : Int) (d : PlainDraft) :
    List Char → Pos → Option Scanned
  | [], pos => some ⟨String.ofList d.text.reverse, [], pos, !d.breaks.isEmpty⟩
  | c :: cs, pos =>
    let finished := some ⟨String.ofList d.text.reverse, c :: cs, pos, !d.breaks.isEmpty⟩
    if isBlank c then
      if d.breaks.isEmpty then
        scanPlain flow least { d with blanks := c :: d.blanks } cs (pos.next c)
      else if c = '\t' && (pos.column : Int) < least then none
      else scanPlain flow least d cs (pos.next c)
    else if isBreak c then
      scanPlain flow least { d with blanks := [], breaks := d.breaks ++ [c] } cs pos.newLine
    else
      let between := !d.blanks.isEmpty || !d.breaks.isEmpty
      if between && !flow && (pos.column : Int) < least then finished
      else if (between || d.text.isEmpty) &&
          (c = '#' || (pos.column = 0 && atDocumentMark (c :: cs))) then finished
      else if flow && c = ':' && (cs.head?.any fun e => isFlowIndicator e || e = '?') then none
      else if (c = ':' && atGap cs) || (flow && isFlowIndicator c) then finished
      else scanPlain flow least ⟨c :: d.joined, [], []⟩ cs (pos.next c)

/-! ## Quoted scalars -/

/-- What the next character of a quoted scalar is read as. -/
inductive QuotedMode
  | text
  /-- A backslash came before. -/
  | escape
  /-- So many digits of a code point are missing, and the others give a value. -/
  | hex (missing value : Nat)
  /-- A quote came before : the end, unless another follows. -/
  | closing

/-- A quoted scalar under way. -/
structure QuotedDraft where
  mode : QuotedMode
  text : List Char
  blanks : List Char
  breaks : List Char
  /-- The first of the line breaks was escaped and counts for nothing. -/
  escaped : Bool

namespace QuotedDraft

/-- Nothing read yet. -/
def empty : QuotedDraft := ⟨.text, [], [], [], false⟩

/-- Whether line breaks have been read since the last word. -/
def inBreaks (d : QuotedDraft) : Bool := d.escaped || !d.breaks.isEmpty

/-- The text with what was read since its last word. -/
def joined (d : QuotedDraft) : List Char :=
  if d.escaped then d.breaks.reverse ++ d.text
  else if d.breaks.isEmpty then d.blanks ++ d.text
  else (folded d.breaks).reverse ++ d.text

/-- A draft with the given text and nothing after it. -/
def ofText (text : List Char) (mode : QuotedMode) : QuotedDraft := ⟨mode, text, [], [], false⟩

end QuotedDraft

/-- The character that a backslash and another character stand for. -/
def simpleEscape? : Char → Option Char
  | '0' => some '\x00'
  | 'a' => some '\x07'
  | 'b' => some '\x08'
  | 't' => some '\t'
  | '\t' => some '\t'
  | 'n' => some '\n'
  | 'v' => some '\x0b'
  | 'f' => some '\x0c'
  | 'r' => some '\r'
  | 'e' => some '\x1b'
  | ' ' => some ' '
  | '\x22' => some '\x22'
  | '/' => some '/'
  | '\\' => some '\\'
  | 'N' => some '\u0085'
  | '_' => some '\u00a0'
  | 'L' => some '\u2028'
  | 'P' => some '\u2029'
  | _ => none

/-- How many digits of a code point follow a backslash and a letter. -/
def escapeDigits? : Char → Option Nat
  | 'x' => some 2
  | 'u' => some 4
  | 'U' => some 8
  | _ => none

/-- The character with a code point, if it has one. -/
def charOf? (n : Nat) : Option Char :=
  if n.isValidChar then some (Char.ofNat n) else none

/-- A scalar behind its first quote, between double quotes iff `double`. -/
def scanQuoted (double : Bool) (d : QuotedDraft) : List Char → Pos → Option Scanned
  | [], pos =>
    match d.mode with
    | .closing => some ⟨String.ofList d.text.reverse, [], pos, false⟩
    | _ => none
  | c :: cs, pos =>
    match d.mode with
    | .closing =>
      if c = '\x27' then scanQuoted double (.ofText (c :: d.text) .text) cs (pos.next c)
      else some ⟨String.ofList d.text.reverse, c :: cs, pos, false⟩
    | .escape =>
      if isBreak c then
        scanQuoted double { QuotedDraft.ofText d.text .text with escaped := true } cs pos.newLine
      else match simpleEscape? c, escapeDigits? c with
        | some e, _ => scanQuoted double (.ofText (e :: d.text) .text) cs (pos.next c)
        | none, some n => scanQuoted double (.ofText d.text (.hex n 0)) cs (pos.next c)
        | none, none => none
    | .hex missing value =>
      match Text.hexValue? c with
      | none => none
      | some digit =>
        let value := 16 * value + digit
        if missing ≤ 1 then
          match charOf? value with
          | none => none
          | some e => scanQuoted double (.ofText (e :: d.text) .text) cs (pos.next c)
        else scanQuoted double (.ofText d.text (.hex (missing - 1) value)) cs (pos.next c)
    | .text =>
      if isBlank c then
        if d.inBreaks then scanQuoted double d cs (pos.next c)
        else scanQuoted double { d with blanks := c :: d.blanks } cs (pos.next c)
      else if isBreak c then
        scanQuoted double { d with blanks := [], breaks := d.breaks ++ [c] } cs pos.newLine
      else if pos.column = 0 && atDocumentMark (c :: cs) then none
      else if !double && c = '\x27' then
        scanQuoted double (.ofText d.joined .closing) cs (pos.next c)
      else if double && c = '\x22' then
        some ⟨String.ofList d.joined.reverse, cs, pos.next c, false⟩
      else if double && c = '\\' then
        scanQuoted double (.ofText d.joined .escape) cs (pos.next c)
      else scanQuoted double (.ofText (c :: d.joined) .text) cs (pos.next c)

/-! ## Block scalars -/

/-- What becomes of the line breaks at the end of a block scalar. -/
inductive Chomping
  | strip
  | clip
  | keep
deriving DecidableEq, Repr

/-- A block scalar under way. -/
structure BlockDraft where
  /-- The column of the lines ; zero until the first line shows it. -/
  indent : Nat
  /-- The furthest column reached by spaces so far. -/
  widest : Nat
  /-- Whether a line's text is being read, not the space in front of it. -/
  inLine : Bool
  text : List Char
  /-- The break at the end of the last line. -/
  lead : List Char
  /-- The breaks of empty lines after it. -/
  breaks : List Char
  /-- Whether the last line starts with a blank. -/
  leadBlank : Bool

namespace BlockDraft

/-- Nothing read yet, at a known column or, for zero, at one to be found out. -/
def empty (indent : Nat) : BlockDraft := ⟨indent, 0, false, [], [], [], false⟩

/-- The draft with the breaks in front of a line joined to the text. A folded break is a
space where no empty line and no line with a blank in front is next to it. -/
def startLine (literal : Bool) (d : BlockDraft) (c : Char) : BlockDraft :=
  let kept :=
    if !literal && d.lead = ['\n'] && !d.leadBlank && !isBlank c then
      if d.breaks.isEmpty then [' '] else []
    else d.lead
  { d with inLine := true, text := c :: ((kept ++ d.breaks).reverse ++ d.text),
           lead := [], breaks := [], leadBlank := isBlank c }

/-- The text with its last breaks chomped. -/
def finish (chomping : Chomping) (d : BlockDraft) : String :=
  let tail := match chomping with
    | .strip => []
    | .clip => d.lead
    | .keep => d.lead ++ d.breaks
  String.ofList (d.text.reverse ++ tail)

end BlockDraft

/-- The lines of a block scalar. Where the column is to be found out it is `least` or
further. -/
def scanBlock (literal : Bool) (chomping : Chomping) (least : Nat) (d : BlockDraft) :
    List Char → Pos → Option Scanned
  | [], pos => some ⟨d.finish chomping, [], pos, true⟩
  | c :: cs, pos =>
    if d.inLine then
      if isBreak c then
        scanBlock literal chomping least { d with inLine := false, lead := [c] } cs pos.newLine
      else scanBlock literal chomping least { d with text := c :: d.text } cs (pos.next c)
    else
      let before := d.indent = 0 || pos.column < d.indent
      if c = ' ' && before then
        scanBlock literal chomping least { d with widest := max d.widest (pos.column + 1) } cs
          (pos.next c)
      else if c = '\t' && before then none
      else if isBreak c then
        scanBlock literal chomping least { d with breaks := d.breaks ++ [c] } cs pos.newLine
      else
        let indent := if d.indent = 0 then max d.widest (max least 1) else d.indent
        if pos.column = indent then
          scanBlock literal chomping least ({ d with indent }.startLine literal c) cs (pos.next c)
        else some ⟨d.finish chomping, c :: cs, pos, true⟩

/-- The number of columns and the chomping that a block scalar announces, and the rest. -/
def blockHeader? (cs : List Char) : Option (Option Nat × Chomping × List Char) :=
  let chomp? : List Char → Option (Chomping × List Char)
    | '+' :: cs => some (.keep, cs)
    | '-' :: cs => some (.strip, cs)
    | _ => none
  let digit? : List Char → Option (Nat × List Char)
    | c :: cs => if c.isDigit then some (c.toNat - '0'.toNat, cs) else none
    | [] => none
  let parsed : Option Nat × Chomping × List Char := match chomp? cs with
    | some (chomping, cs) => match digit? cs with
      | some (n, cs) => (some n, chomping, cs)
      | none => (none, chomping, cs)
    | none => match digit? cs with
      | some (n, cs) => match chomp? cs with
        | some (chomping, cs) => (some n, chomping, cs)
        | none => (some n, .clip, cs)
      | none => (none, .clip, cs)
  if parsed.1 = some 0 then none else some parsed

/-- A block scalar behind its first character, in a block whose lines stand at column
`parent`, or nowhere if that is negative. -/
def scanBlockScalar (literal : Bool) (parent : Int) (cs : List Char) (pos : Pos) :
    Option Scanned := do
  let (increment, chomping, rest) ← blockHeader? cs
  let rest := rest.dropWhile isBlank
  let rest := match rest with
    | '#' :: _ => rest.dropWhile (!isBreak ·)
    | _ => rest
  if !atLineEnd rest then none
  else
    let pos := pos.past (cs.take (cs.length - rest.length))
    let indent := match increment with
      | some n => (max parent 0).toNat + n
      | none => 0
    let (rest, pos) := match rest with
      | _ :: rest => (rest, pos.newLine)
      | [] => (rest, pos)
    scanBlock literal chomping (parent + 1).toNat (.empty indent) rest pos

end SettingsCompiler.Yaml
