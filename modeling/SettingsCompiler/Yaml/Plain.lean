import SettingsCompiler.Data.Node
import SettingsCompiler.Yaml.Token

/-!
# What a scalar means

The readings of a scalar in a YAML text. Any scalar is text. Where no type is asked for,
a plain scalar is nothing, a truth value, a whole number, a number or text, whichever of
these it spells first ; a quoted or block scalar is text, and a tag decides in its own
way.
-/

namespace SettingsCompiler.Yaml

open Data

/-! ## Words -/

/-- The spellings of nothing. -/
def isNull (s : String) : Bool :=
  s = "null" || s = "Null" || s = "NULL" || s = "~"

/-- The spellings of the truth values. -/
def truth? (s : String) : Option Bool :=
  if s = "true" || s = "True" || s = "TRUE" then some true
  else if s = "false" || s = "False" || s = "FALSE" then some false
  else none

/-! ## Whole numbers -/

/-- A zero with more digits behind it, which is no number. -/
def isZeroPadded (cs : List Char) : Bool :=
  let cs := match cs with
    | '+' :: cs | '-' :: cs => cs
    | cs => cs
  match cs with
  | '0' :: d :: ds => (d :: ds).all Char.isDigit
  | _ => false

/-- The number that a text without a sign spells, in any base. -/
def magnitude? : List Char → Option Nat
  | '0' :: 'x' :: cs => Text.digits? 16 cs
  | '0' :: 'o' :: cs => Text.digits? 8 cs
  | '0' :: 'b' :: cs => Text.digits? 2 cs
  | cs => if isZeroPadded cs then none else Text.digits? 10 cs

/-- A count : a number without a minus sign, of at most 64 bits. -/
def count? (s : String) : Option Nat :=
  let n? := match s.toList with
    | '+' :: cs => magnitude? cs
    | cs => magnitude? cs
  n?.filter (· < UInt64.size)

/-- A whole number with or without a sign. -/
def whole? (s : String) : Option Int :=
  match s.toList with
  | '-' :: cs => (magnitude? cs).map fun n => -(n : Int)
  | '+' :: cs => (magnitude? cs).map fun n => (n : Int)
  | cs => (magnitude? cs).map fun n => (n : Int)

/-! ## Numbers -/

/-- The value of an exponent behind its letter. -/
def exponent? (cs : List Char) : Option Int :=
  match cs with
  | '-' :: ds => (Text.digits? 10 ds).map fun n => -(n : Int)
  | '+' :: ds => (Text.digits? 10 ds).map fun n => (n : Int)
  | ds => (Text.digits? 10 ds).map fun n => (n : Int)

/-- The finite number that a decimal without a sign spells. -/
def decimal? (negative : Bool) (cs : List Char) : Option Binary64 := do
  let front := cs.takeWhile Char.isDigit
  let rest := cs.drop front.length
  let (fraction, rest) := match rest with
    | '.' :: rest => (rest.takeWhile Char.isDigit, rest.dropWhile Char.isDigit)
    | rest => ([], rest)
  let exponent ← match rest with
    | [] => some 0
    | 'e' :: rest | 'E' :: rest => exponent? rest
    | _ => none
  let digits ← Text.digits? 10 (front ++ fraction)
  Binary64.nearest? negative digits (exponent - fraction.length)

/-- A number with or without a sign. -/
def number? (s : String) : Option Binary64 :=
  let isInfinity (cs : List Char) : Bool :=
    cs = ".inf".toList || cs = ".Inf".toList || cs = ".INF".toList
  if s = ".nan" || s = ".NaN" || s = ".NAN" then some .nan
  else match s.toList with
    | '-' :: cs => if isInfinity cs then some (.infinite true) else decimal? true cs
    | '+' :: cs => if isInfinity cs then some (.infinite false) else decimal? false cs
    | cs => if isInfinity cs then some (.infinite false) else decimal? false cs

/-! ## Plain scalars -/

/-- A number that fits 64 bits, with or without a sign ; one of up to 128 bits that does
not is no datum at all, and a longer one no whole number. -/
def wholeDatum? (n : Int) : Option (Option Datum) :=
  if Int64.minValue.toInt ≤ n && n < UInt64.size then some (some (.int n))
  else if -(Nat.pow 2 127 : Int) ≤ n && n < Nat.pow 2 128 then some none
  else none

/-- What a plain scalar is where no type is asked for. -/
def plainDatum? (s : String) : Option Datum :=
  if s = "" || isNull s then some .null
  else match truth? s with
    | some b => some (.bool b)
    | none =>
      match (whole? s).bind wholeDatum? with
      | some d => d
      | none =>
        if isZeroPadded s.toList then some (.text s)
        else match number? s with
          | some x => some (.real x)
          | none => some (.text s)

/-! ## Scalars with tags -/

/-- What a scalar is where no type is asked for. A tag of a document's own stays with its
value, one that is no text says nothing, and any other makes text. -/
def datum? (text : String) (style : ScalarStyle) (tag : Option TagText) : Option Datum :=
  let untagged := if style = .plain then plainDatum? text else some (.text text)
  match tag with
  | none => untagged
  | some t =>
    if t.isCore "bool" then (truth? text).map .bool
    else if t.isCore "int" then ((whole? text).bind wholeDatum?).join
    else if t.isCore "float" then (number? text).map .real
    else if t.isCore "null" then if isNull text then some .null else none
    else match t.localName? with
      | some name => untagged.map (.tagged name)
      | none => if t.isLocal then untagged else some (.text text)

/-- The readings of a scalar. A scalar with a tag is there, whatever it spells, unless
the tag says that it is nothing. -/
def scalar (text : String) (style : ScalarStyle) (tag : Option TagText) : Scalar :=
  let isPlainOr (type : String) : Bool :=
    style = .plain || (style = .literal && tag.any (·.isCore type))
  { text := some text
    flag := if isPlainOr "bool" then truth? text else none
    count := if isPlainOr "int" then count? text else none
    absent :=
      if style ≠ .plain then some false
      else match tag with
        | none => some (text = "" || isNull text)
        | some t =>
          if t.isCore "null" then if isNull text then some true else none
          else some false
    empty := style = .plain && text = ""
    datum := datum? text style tag }

end SettingsCompiler.Yaml
