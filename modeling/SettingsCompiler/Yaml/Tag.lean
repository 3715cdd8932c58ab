import SettingsCompiler.Yaml.Scalar

/-!
# Tags

A tag says what a node is. In a text it is a handle, which stands for another text, and
a suffix, or it stands whole between angle brackets. Both may hold escaped bytes, so a
tag need not be text : a `TagText` has a replacement for each character that its bytes
do not encode, and says so. A tag ends at its first character zero.
-/

namespace SettingsCompiler.Yaml

/-- A tag or a part of one. -/
structure TagText where
  text : String
  /-- Whether all of its bytes encode text. -/
  valid : Bool
deriving DecidableEq, Repr

namespace TagText

/-- A tag that is text. -/
def ofString (s : String) : TagText := ⟨s, true⟩

/-- The tag of characters, some of which are none. -/
def ofChars (cs : List (Option Char)) : TagText :=
  let cs := cs.takeWhile (· ≠ some '\x00')
  ⟨String.ofList (cs.map (·.getD '\ufffd')), cs.all Option.isSome⟩

/-- One part behind another. -/
def append (a b : TagText) : TagText := ⟨a.text ++ b.text, a.valid && b.valid⟩

/-- What the tags of the basic types begin with. -/
def core : String := "tag:yaml.org,2002:"

/-- Whether this is the tag of a basic type. -/
def isCore (t : TagText) (type : String) : Bool := t.text = core ++ type

/-- Whether a tag belongs to a document of its own, and not to all of them. -/
def isLocal (t : TagText) : Bool := t.text.toList.head? = some '!'

/-- A name without the exclamation mark in front, unless it is nothing else. -/
def bareName : List Char → List Char
  | ['!'] => ['!']
  | '!' :: name => name
  | name => name

/-- The name of a document's own tag, where a second exclamation mark says nothing. -/
def localName? (t : TagText) : Option String :=
  if t.valid && t.isLocal then some (String.ofList (bareName (bareName t.text.toList)))
  else none

end TagText

/-! ## Reading -/

/-- A tag's handle : an exclamation mark, and a name with another one behind it. -/
def handle? (directive : Bool) (cs : List Char) : Option (List Char × List Char) :=
  match cs with
  | '!' :: cs =>
    let name := cs.takeWhile isNameChar
    match cs.drop name.length with
    | '!' :: rest => some ('!' :: name ++ ['!'], rest)
    | rest => if directive && !name.isEmpty then none else some ('!' :: name, rest)
  | _ => none

/-- A character of a tag besides escaped ones. -/
def isTagChar (verbatim : Bool) (c : Char) : Bool :=
  isNameChar c || ";/?:@&=+$.!~*()".toList.contains c || c = '\x27' ||
    (verbatim && (c = ',' || c = '[' || c = ']'))

/-- The character that a number encodes which was written in so many bytes ; none if
fewer would do. -/
def encoded? (bytes value : Nat) : Option Char :=
  (charOf? value).filter fun c => c.utf8Size = bytes

/-- The character that escaped bytes encode, if any, and what follows them. The first
byte says how many there are. -/
def escapedChar? (cs : List Char) : Option (Option Char × List Char) :=
  let byte? : List Char → Option (Nat × List Char)
    | '%' :: a :: b :: cs => do return (16 * (← Text.hexValue? a) + (← Text.hexValue? b), cs)
    | _ => none
  let rec more (n value : Nat) (cs : List Char) : Option (Nat × List Char) :=
    match n with
    | 0 => some (value, cs)
    | n + 1 => do
      let (b, cs) ← byte? cs
      if b / 64 = 2 then more n (64 * value + b % 64) cs else none
  do
    let (b, cs) ← byte? cs
    let (bytes, start) ←
      if b < 0x80 then some (1, b)
      else if b / 32 = 6 then some (2, b % 32)
      else if b / 16 = 14 then some (3, b % 16)
      else if b / 8 = 30 then some (4, b % 8)
      else none
    let (value, cs) ← more (bytes - 1) start cs
    return (encoded? bytes value, cs)

/-- The characters of a tag and what follows them. -/
def tagChars? (verbatim : Bool) (fuel : Nat) (cs : List Char) :
    Option (List (Option Char) × List Char) :=
  match fuel, cs with
  | _, [] => some ([], [])
  | 0, cs => some ([], cs)
  | fuel + 1, c :: cs =>
    if isTagChar verbatim c then do
      let (text, rest) ← tagChars? verbatim fuel cs
      return (some c :: text, rest)
    else if c = '%' then do
      let (e, rest) ← escapedChar? (c :: cs)
      let (text, rest) ← tagChars? verbatim fuel rest
      return (e :: text, rest)
    else some ([], c :: cs)

/-- The characters of a tag, of which there must be some. -/
def someTagText? (verbatim : Bool) (cs : List Char) : Option (TagText × List Char) :=
  match tagChars? verbatim cs.length cs with
  | some (c :: text, rest) => some (.ofChars (c :: text), rest)
  | _ => none

/-- A tag : its handle, its suffix and what follows. A whole tag has no handle, and so
has a tag of an exclamation mark alone. -/
def tag? (flow : Bool) (cs : List Char) : Option (String × TagText × List Char) := do
  let (handle, suffix, rest) ← match cs with
    | '!' :: '<' :: cs => do
      let (text, rest) ← someTagText? true cs
      match rest with
      | '>' :: rest => some ("", text, rest)
      | _ => none
    | cs => do
      let (handle, rest) ← handle? false cs
      if 1 < handle.length && handle.getLast? = some '!' then
        let (suffix, rest) ← someTagText? false rest
        some (String.ofList handle, suffix, rest)
      else
        let (text, rest) ← tagChars? false rest.length rest
        let suffix := TagText.ofChars (handle.tail.map some ++ text)
        some (if suffix.text = "" then ("", .ofString "!", rest) else ("!", suffix, rest))
  if atGap rest || (flow && rest.head? = some ',') then some (handle, suffix, rest) else none

end SettingsCompiler.Yaml
