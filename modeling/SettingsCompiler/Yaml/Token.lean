import SettingsCompiler.Yaml.Tag

/-!
# Tokens of a YAML text

`Token.ofText?` cuts a text into tokens. Indentation shows in the tokens as the starts
and ends of block collections. A key of a mapping is recognised only when the colon
behind it is reached, so each place where a key may start is remembered as a `KeySpot`,
one for each level of brackets, and the tokens that start the key are put in front of it
then.

`Reader.step` reads one token and always moves on in the text ; `Reader.run` stops if it
ever did not, which makes its recursion well founded.
-/

namespace SettingsCompiler.Yaml

/-- How a scalar is written, as far as its type depends on it. -/
inductive ScalarStyle
  | plain
  | literal
  | other
deriving DecidableEq, Repr

/-- A token. -/
inductive Token
  | streamEnd
  | version (major minor : Nat)
  | tagHandle (handle : String) (replacement : TagText)
  | documentStart
  | documentEnd
  | blockSequence
  | blockMapping
  | blockEnd
  | flowSequence
  | flowSequenceEnd
  | flowMapping
  | flowMappingEnd
  | blockEntry
  | flowEntry
  | key
  | value
  | reference (name : String)
  | anchor (name : String)
  | tag (handle : String) (suffix : TagText)
  | scalar (text : String) (style : ScalarStyle)
deriving DecidableEq, Repr

/-- A place where a key may have started. -/
structure KeySpot where
  /-- Nothing but a key can stand there. -/
  required : Bool
  pos : Pos
  /-- The number of tokens before it. -/
  tokens : Nat

/-- A text under way. -/
structure Reader where
  rest : List Char
  pos : Pos
  /-- The column of the innermost block collection, and those around it. -/
  indent : Int
  outer : List Int
  /-- Whether a key may start here. -/
  keyAllowed : Bool
  /-- The place of a possible key at each level of brackets, the innermost first. -/
  spots : List (Option KeySpot)
  /-- The tokens so far, the last first, and their number. -/
  tokens : List Token
  count : Nat

namespace Reader

/-- The start of a text. -/
def ofText (cs : List Char) : Reader :=
  ⟨cs, .start, -1, [], true, [none], [], 0⟩

/-- Whether the text is inside brackets. -/
def inFlow (r : Reader) : Bool := 1 < r.spots.length

/-- One more token. -/
def emit (r : Reader) (t : Token) : Reader :=
  { r with tokens := t :: r.tokens, count := r.count + 1 }

/-- One more token, put in front of all but the first `n`. -/
def emitAt (r : Reader) (n : Nat) (t : Token) : Reader :=
  let late := r.count - n
  { r with tokens := r.tokens.take late ++ t :: r.tokens.drop late, count := r.count + 1 }

/-- The text some characters further on the line. -/
def advance (r : Reader) (n : Nat) : Reader :=
  { r with rest := r.rest.drop n, pos := r.pos.past (r.rest.take n) }

/-! ## Indentation -/

/-- Block collections that stand further right than a column end. -/
def unroll (column : Int) (r : Reader) : Reader :=
  if r.inFlow then r
  else
    let ended := (r.indent :: r.outer).takeWhile fun i => column < i && 0 ≤ i
    let left := (r.indent :: r.outer).drop ended.length
    { r with
      indent := left.headD (-1), outer := left.tail,
      tokens := ended.map (fun _ => Token.blockEnd) ++ r.tokens,
      count := r.count + ended.length }

/-- A block collection starts at a column if it stands further right than the one around
it ; its token goes in front of all but the first `n`. -/
def roll (column n : Nat) (t : Token) (r : Reader) : Reader :=
  if !r.inFlow && r.indent < column then
    { r.emitAt n t with indent := column, outer := r.indent :: r.outer }
  else r

/-! ## Places of keys -/

/-- Forget the place of a key, which must not be required. -/
def dropSpot (r : Reader) : Option Reader :=
  match r.spots with
  | some s :: spots => if s.required then none else some { r with spots := none :: spots }
  | _ => some r

/-- Remember that a key may start here. -/
def markSpot (r : Reader) : Option Reader :=
  if r.keyAllowed then do
    let r ← r.dropSpot
    let spot : KeySpot := ⟨!r.inFlow && r.indent == r.pos.column, r.pos, r.count⟩
    return { r with spots := some spot :: r.spots.tail }
  else some r

/-- How many bytes behind its start a key may end. -/
def keyLimit : Nat := 1024

/-- Forget the places of keys that lie on an earlier line or too far back. -/
def dropStale (r : Reader) : Option Reader := do
  let spots ← r.spots.mapM fun
    | none => some none
    | some s =>
      if s.pos.line < r.pos.line || s.pos.bytes + keyLimit < r.pos.bytes then
        if s.required then none else some none
      else some (some s)
  return { r with spots }

/-! ## Blanks and comments -/

/-- A text without the blanks, comments and line breaks in front of its next token. A tab
counts as a blank where no key may start, and a byte order mark at the start of a line
is one. -/
def skipGap (flow keyAllowed inComment : Bool) : List Char → Pos → List Char × Pos × Bool
  | [], pos => ([], pos, keyAllowed)
  | c :: cs, pos =>
    if isBreak c then skipGap flow (keyAllowed || !flow) false cs pos.newLine
    else if inComment || c = '#' then skipGap flow keyAllowed true cs (pos.next c)
    else if c = ' ' || (c = '\t' && (flow || !keyAllowed)) ||
        (c = '\ufeff' && pos.column = 0) then
      skipGap flow keyAllowed false cs (pos.next c)
    else (c :: cs, pos, keyAllowed)

/-! ## Directives -/

/-- A number of at most nine digits and what follows it. -/
def versionNumber? (cs : List Char) : Option (Nat × List Char) :=
  let ds := cs.takeWhile Char.isDigit
  if ds.isEmpty || 9 < ds.length then none
  else some (Text.ofDigits ds, cs.drop ds.length)

/-- A directive behind its percent sign, and the rest of its line. -/
def directive? (cs : List Char) : Option (Token × List Char) := do
  let name := cs.takeWhile isNameChar
  let rest := cs.drop name.length
  if name.isEmpty || !atGap rest then none
  let rest := rest.dropWhile isBlank
  let (token, rest) ←
    if name = "YAML".toList then do
      let (major, rest) ← versionNumber? rest
      let '.' :: rest := rest | none
      let (minor, rest) ← versionNumber? rest
      some (Token.version major minor, rest)
    else if name = "TAG".toList then do
      let (handle, rest) ← handle? true rest
      let c :: _ := rest | none
      if !isBlank c then none
      let (text, rest) ← someTagText? true (rest.dropWhile isBlank)
      if !atGap rest then none
      some (Token.tagHandle (String.ofList handle) text, rest)
    else none
  let rest := rest.dropWhile isBlank
  let rest := match rest with
    | '#' :: _ => rest.dropWhile (!isBreak ·)
    | _ => rest
  if atLineEnd rest then some (token, rest) else none

/-! ## One token -/

/-- The text from a place on, with everything between on one line. -/
def goTo (rest : List Char) (r : Reader) : Reader :=
  r.advance (r.rest.length - rest.length)

/-- The text behind the line break that is next, if one is. -/
def nextLine (r : Reader) : Reader :=
  match r.rest with
  | c :: cs => if isBreak c then { r with rest := cs, pos := r.pos.newLine } else r
  | [] => r

/-- A token that starts or ends a document or gives a directive closes all blocks. -/
def closeBlocks (r : Reader) : Option Reader := do
  let r ← (r.unroll (-1)).dropSpot
  return { r with keyAllowed := false }

/-- A token of one character that opens brackets. -/
def openFlow (t : Token) (r : Reader) : Option Reader := do
  let r ← r.markSpot
  return { r.advance 1 with spots := none :: r.spots, keyAllowed := true }.emit t

/-- A token of one character that closes brackets. -/
def closeFlow (t : Token) (r : Reader) : Option Reader := do
  let r ← r.dropSpot
  let spots := if r.inFlow then r.spots.tail else r.spots
  return { r.advance 1 with spots, keyAllowed := false }.emit t

/-- The comma between the items in brackets. -/
def flowEntry (r : Reader) : Option Reader := do
  let r ← r.dropSpot
  return { r.advance 1 with keyAllowed := true }.emit .flowEntry

/-- The dash in front of an item of a block sequence. -/
def blockEntry (r : Reader) : Option Reader := do
  if !r.inFlow && !r.keyAllowed then none
  let r ← (r.roll r.pos.column r.count .blockSequence).dropSpot
  return { r.advance 1 with keyAllowed := true }.emit .blockEntry

/-- The question mark in front of a key. -/
def keyMark (r : Reader) : Option Reader := do
  if !r.inFlow && !r.keyAllowed then none
  let r ← (r.roll r.pos.column r.count .blockMapping).dropSpot
  return { r.advance 1 with keyAllowed := !r.inFlow }.emit .key

/-- The colon between a key and its value. If a key may have started before it, the
tokens for that go in front of the key. -/
def valueMark (r : Reader) : Option Reader :=
  match r.spots with
  | some s :: spots =>
    let r := r.emitAt s.tokens .key
    let r := r.roll s.pos.column s.tokens .blockMapping
    some ({ r.advance 1 with spots := none :: spots, keyAllowed := false }.emit .value)
  | _ =>
    if !r.inFlow && !r.keyAllowed then none
    else
      let r := r.roll r.pos.column r.count .blockMapping
      some ({ r.advance 1 with keyAllowed := !r.inFlow }.emit .value)

/-- A name behind an ampersand or an asterisk. -/
def named (token : String → Token) (r : Reader) : Option Reader := do
  let r ← r.markSpot
  let name := r.rest.tail.takeWhile isNameChar
  let rest := r.rest.tail.drop name.length
  let ended := atGap rest || rest.head?.any fun c =>
    c = '?' || c = ':' || c = ',' || c = ']' || c = '\x7d' || c = '%' || c = '@' || c = '\x60'
  if name.isEmpty || !ended then none
  return { r.advance (name.length + 1) with keyAllowed := false }.emit (token (String.ofList name))

/-- A tag. -/
def tagged (r : Reader) : Option Reader := do
  let r ← r.markSpot
  let (handle, suffix, rest) ← tag? r.inFlow r.rest
  return { r.goTo rest with keyAllowed := false }.emit (.tag handle suffix)

/-- A scalar that has been read. -/
def scanned (style : ScalarStyle) (s : Scanned) (r : Reader) : Reader :=
  { r with rest := s.rest, pos := s.pos, keyAllowed := s.pastBreaks }.emit (.scalar s.text style)

/-- A block scalar. -/
def blockScalar (literal : Bool) (r : Reader) : Option Reader := do
  let r ← r.dropSpot
  let s ← scanBlockScalar literal r.indent r.rest.tail (r.pos.past (r.rest.take 1))
  return r.scanned (if literal then .literal else .other) s

/-- A scalar between quotes. -/
def quotedScalar (double : Bool) (r : Reader) : Option Reader := do
  let r ← r.markSpot
  return r.scanned .other (← scanQuoted double .empty r.rest.tail (r.pos.past (r.rest.take 1)))

/-- A plain scalar. -/
def plainScalar (r : Reader) : Option Reader := do
  let r ← r.markSpot
  return r.scanned .plain (← scanPlain r.inFlow (r.indent + 1) ⟨[], [], []⟩ r.rest r.pos)

/-- A character that starts no plain scalar. -/
def isIndicator (c : Char) : Bool :=
  isBlank c || isBreak c || "-?:,[]#&*!|>%@".toList.contains c || c = '\x7b' || c = '\x7d' ||
    c = '\x27' || c = '\x22' || c = '\x60'

/-- Read the next token. The flag says whether the text has ended. -/
def step (r : Reader) : Option (Reader × Bool) := do
  let (rest, pos, keyAllowed) := skipGap r.inFlow r.keyAllowed false r.rest r.pos
  let r ← { r with rest, pos, keyAllowed }.dropStale
  let r := r.unroll r.pos.column
  let flow := r.inFlow
  let more (r : Option Reader) : Option (Reader × Bool) := r.map fun r => (r, false)
  match r.rest with
  | [] => do
    let r ← r.closeBlocks
    return (r.emit .streamEnd, true)
  | c :: cs =>
    if r.pos.column = 0 && c = '%' then more do
      let r ← r.closeBlocks
      let (t, rest) ← directive? cs
      return (r.goTo rest).nextLine.emit t
    else if r.pos.column = 0 && atDocumentMark (c :: cs) then more do
      let r ← r.closeBlocks
      return (r.advance 3).emit (if c = '-' then .documentStart else .documentEnd)
    else if c = '[' then more (r.openFlow .flowSequence)
    else if c = '\x7b' then more (r.openFlow .flowMapping)
    else if c = ']' then more (r.closeFlow .flowSequenceEnd)
    else if c = '\x7d' then more (r.closeFlow .flowMappingEnd)
    else if c = ',' then more r.flowEntry
    else if c = '-' && atGap cs then more r.blockEntry
    else if c = '?' && (flow || atGap cs) then more r.keyMark
    else if c = ':' && (flow || atGap cs) then more r.valueMark
    else if c = '*' then more (r.named .reference)
    else if c = '&' then more (r.named .anchor)
    else if c = '!' then more r.tagged
    else if c = '|' && !flow then more (r.blockScalar true)
    else if c = '>' && !flow then more (r.blockScalar false)
    else if c = '\x27' then more (r.quotedScalar false)
    else if c = '\x22' then more (r.quotedScalar true)
    else if !isIndicator c || (c = '-' && !(cs.head?.any isBlank)) ||
        (!flow && (c = '?' || c = ':') && !atGap cs) then more r.plainScalar
    else none

/-- Read the tokens from here to the end, in at most `steps` steps. -/
def run (r : Reader) : Nat → Option (List Token)
  | 0 => none
  | steps + 1 =>
    match r.step with
    | none => none
    | some (next, true) => some next.tokens.reverse
    | some (next, false) => next.run steps

end Reader

/-- The tokens of a text, up to the token for its end. Every step but the last one passes
over a character. -/
def Token.ofText? (s : String) : Option (List Token) :=
  let cs := breaksNormal s.toList
  if cs.all isAllowed then (Reader.ofText cs).run (cs.length + 1) else none

end SettingsCompiler.Yaml
