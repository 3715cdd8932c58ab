import SettingsCompiler.Json.Value
import SettingsCompiler.Text.Digits

/-!
# Reading JSON

`Json.read?` reads a text that holds one JSON value. A number without point and exponent
stays a whole number if it fits 64 bits, with or without a sign, and any other number is
rounded to a `Binary64`. The reader looks one value ahead at a time, and the number of
characters bounds how deep it goes.
-/

namespace SettingsCompiler.Json

open Text (hexValue? ofDigits)

/-- The blanks between the parts of a value. -/
def isSpace (c : Char) : Bool :=
  c = ' ' || c = '\t' || c = '\n' || c = '\r'

/-- A text without the blanks it starts with. -/
def skip (cs : List Char) : List Char :=
  cs.dropWhile isSpace

/-! ## Code units -/

/-- A code unit from its four digits. -/
def unit? (a b c d : Char) : Option Nat := do
  return 4096 * (← hexValue? a) + 256 * (← hexValue? b) + 16 * (← hexValue? c) + (← hexValue? d)

/-! ## Strings -/

/-- The character behind a backslash, where it stands for itself or for a control. -/
def simpleEscape? : Char → Option Char
  | '\x22' => some '\x22'
  | '\\' => some '\\'
  | '/' => some '/'
  | 'b' => some '\x08'
  | 'f' => some '\x0c'
  | 'n' => some '\n'
  | 'r' => some '\r'
  | 't' => some '\t'
  | _ => none

/-- A string behind its first quote, and what follows its last. -/
def readString : List Char → Option (List Char × List Char)
  | [] => none
  | '\x22' :: cs => some ([], cs)
  | '\\' :: 'u' :: a :: b :: c :: d :: '\\' :: 'u' :: e :: f :: g :: h :: cs => do
    let high ← unit? a b c d
    let low ← unit? e f g h
    if 0xD800 ≤ high && high < 0xDC00 && 0xDC00 ≤ low && low < 0xE000 then
      let (s, rest) ← readString cs
      return (Char.ofNat (0x10000 + 0x400 * (high - 0xD800) + (low - 0xDC00)) :: s, rest)
    else if 0xD800 ≤ high && high < 0xE000 then none
    else
      let (s, rest) ← readString ('\\' :: 'u' :: e :: f :: g :: h :: cs)
      return (Char.ofNat high :: s, rest)
  | '\\' :: 'u' :: a :: b :: c :: d :: cs => do
    let unit ← unit? a b c d
    if 0xD800 ≤ unit && unit < 0xE000 then none
    else
      let (s, rest) ← readString cs
      return (Char.ofNat unit :: s, rest)
  | '\\' :: c :: cs => do
    let c ← simpleEscape? c
    let (s, rest) ← readString cs
    return (c :: s, rest)
  | c :: cs => do
    let (s, rest) ← readString cs
    return (c :: s, rest)

/-! ## Numbers -/

/-- Sign and digits of an exponent, if the text starts with one. -/
def readExponent (cs : List Char) : Option (Int × List Char) :=
  let digits (cs : List Char) (sign : Int) : Option (Int × List Char) :=
    match cs.takeWhile Char.isDigit with
    | [] => none
    | ds => some (sign * ofDigits ds, cs.dropWhile Char.isDigit)
  match cs with
  | 'e' :: '-' :: cs | 'E' :: '-' :: cs => digits cs (-1)
  | 'e' :: '+' :: cs | 'E' :: '+' :: cs => digits cs 1
  | 'e' :: cs | 'E' :: cs => digits cs 1
  | _ => none

/-- The number with the given sign that a text starts with. -/
def readNumber (negative : Bool) (cs : List Char) : Option (Json × List Char) :=
  let whole := cs.takeWhile Char.isDigit
  let rest := cs.dropWhile Char.isDigit
  let (fraction, rest) := match rest with
    | '.' :: rest => (rest.takeWhile Char.isDigit, rest.dropWhile Char.isDigit)
    | _ => ([], rest)
  let exponent := readExponent rest
  let rest := match exponent with
    | some (_, rest) => rest
    | none => rest
  let value : Int := if negative then -(ofDigits whole : Int) else ofDigits whole
  if whole.isEmpty then none
  else if fraction.isEmpty && exponent.isNone && Int64.minValue.toInt ≤ value &&
      value < UInt64.size && !(negative && value = 0) then
    some (.int value, rest)
  else
    let power : Int := (exponent.map Prod.fst).getD 0 - fraction.length
    (Binary64.nearest? negative (ofDigits (whole ++ fraction)) power).map fun x =>
      (.real x, rest)

/-! ## Values -/

mutual

/-- The value that a text starts with and what follows it. -/
def readValue : Nat → List Char → Option (Json × List Char)
  | 0, _ => none
  | fuel + 1, cs =>
    match skip cs with
    | 'n' :: 'u' :: 'l' :: 'l' :: cs => some (.null, cs)
    | 't' :: 'r' :: 'u' :: 'e' :: cs => some (.bool true, cs)
    | 'f' :: 'a' :: 'l' :: 's' :: 'e' :: cs => some (.bool false, cs)
    | '\x22' :: cs => (readString cs).map fun (s, rest) => (.str (String.ofList s), rest)
    | '[' :: cs =>
      match skip cs with
      | ']' :: cs => some (.arr [], cs)
      | cs => (readItems fuel cs).map fun (vs, rest) => (.arr vs, rest)
    | '\x7b' :: cs =>
      match skip cs with
      | '\x7d' :: cs => some (.obj [], cs)
      | cs => (readMembers fuel cs).map fun (ms, rest) => (.obj ms, rest)
    | '-' :: cs => readNumber true cs
    | cs => readNumber false cs

/-- The items of an array up to its bracket. -/
def readItems : Nat → List Char → Option (List Json × List Char)
  | 0, _ => none
  | fuel + 1, cs => do
    let (v, rest) ← readValue fuel cs
    match skip rest with
    | ',' :: rest =>
      let (vs, rest) ← readItems fuel rest
      return (v :: vs, rest)
    | ']' :: rest => return ([v], rest)
    | _ => none

/-- The members of an object up to its brace. -/
def readMembers : Nat → List Char → Option (List (String × Json) × List Char)
  | 0, _ => none
  | fuel + 1, cs => do
    let ('\x22' :: rest) := skip cs | none
    let (key, rest) ← readString rest
    let (':' :: rest) := skip rest | none
    let (v, rest) ← readValue fuel rest
    let member := (String.ofList key, v)
    match skip rest with
    | ',' :: rest =>
      let (ms, rest) ← readMembers fuel rest
      return (member :: ms, rest)
    | '\x7d' :: rest => return ([member], rest)
    | _ => none

end

/-- The value that a text holds, with nothing but blanks around it. -/
def read? (s : String) : Option Json := do
  let cs := s.toList
  let (v, rest) ← readValue (cs.length + 1) cs
  if (skip rest).isEmpty then return v else none

end SettingsCompiler.Json
