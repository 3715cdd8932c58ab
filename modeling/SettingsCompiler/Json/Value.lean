import SettingsCompiler.Decimal.Shortest

/-!
# JSON values

A JSON value as a tree. Whole numbers are kept apart from numbers written with a point
or an exponent, and the members of an object stay in their order ; `Json.object` puts
them in the order of their keys. `Json.compact` writes a value without blanks and
`Json.pretty` with one item on a line.
-/

namespace SettingsCompiler

/-- A JSON value. -/
inductive Json
  | null
  | bool (b : Bool)
  | int (n : Int)
  | real (x : Binary64)
  | str (s : String)
  | arr (items : List Json)
  | obj (members : List (String × Json))

namespace Json

/-- An object with its members in the order of their keys. -/
def object (members : List (String × Json)) : Json :=
  .obj (members.mergeSort fun a b => decide (a.1 ≤ b.1))

/-- The value of the last member with a key. -/
def get? (key : String) : Json → Option Json
  | obj members => members.reverse.lookup key
  | _ => none

/-! ## Writing -/

/-- The digits of a number below 16 ^ 4 in base sixteen, four of them. -/
def hex4 (n : Nat) : List Char :=
  let ds := Nat.toDigits 16 n
  List.replicate (4 - ds.length) '0' ++ ds

/-- A character inside a string. -/
def escapeChar (c : Char) : List Char :=
  if c = '\x22' then ['\\', '\x22']
  else if c = '\\' then ['\\', '\\']
  else if c = '\n' then ['\\', 'n']
  else if c = '\r' then ['\\', 'r']
  else if c = '\t' then ['\\', 't']
  else if c = '\x08' then ['\\', 'b']
  else if c = '\x0c' then ['\\', 'f']
  else if c.toNat < 0x20 then '\\' :: 'u' :: hex4 c.toNat
  else [c]

/-- A string with its quotes. -/
def quote (s : String) : String :=
  String.ofList ('\x22' :: s.toList.flatMap escapeChar ++ ['\x22'])

/-- How numbers with a point or an exponent are written. -/
def spelling : Spelling := ⟨-4, 16, "e", "null", "null", "null"⟩

mutual

/-- A value without blanks. -/
def compact : Json → String
  | null => "null"
  | bool b => if b then "true" else "false"
  | int n => toString n
  | real x => spelling.text x
  | str s => quote s
  | arr items => "[" ++ Text.joinWith "," (compactItems items) ++ "]"
  | obj members => "\x7b" ++ Text.joinWith "," (compactMembers members) ++ "\x7d"

/-- The items of an array without blanks. -/
def compactItems : List Json → List String
  | [] => []
  | v :: vs => v.compact :: compactItems vs

/-- The members of an object without blanks. -/
def compactMembers : List (String × Json) → List String
  | [] => []
  | (k, v) :: ms => (quote k ++ ":" ++ v.compact) :: compactMembers ms

end

/-- Items between brackets, each on a line of its own behind two more spaces. -/
def block (left right : String) (depth : Nat) : List String → String
  | [] => left ++ right
  | items =>
    left ++ "\n" ++
      Text.joinWith ",\n" (items.map fun item => Text.replicate (depth + 1) "  " ++ item) ++
      "\n" ++ Text.replicate depth "  " ++ right

mutual

/-- A value over several lines, at some depth. -/
def prettyAt (depth : Nat) : Json → String
  | arr items => block "[" "]" depth (prettyItems (depth + 1) items)
  | obj members => block "\x7b" "\x7d" depth (prettyMembers (depth + 1) members)
  | v => v.compact

/-- The items of an array over several lines. -/
def prettyItems (depth : Nat) : List Json → List String
  | [] => []
  | v :: vs => v.prettyAt depth :: prettyItems depth vs

/-- The members of an object over several lines. -/
def prettyMembers (depth : Nat) : List (String × Json) → List String
  | [] => []
  | (k, v) :: ms => (quote k ++ ": " ++ v.prettyAt depth) :: prettyMembers depth ms

end

/-- A value over several lines. -/
def pretty (v : Json) : String := v.prettyAt 0

end Json

end SettingsCompiler
