import SettingsCompiler.Decimal.Binary64
import SettingsCompiler.Text.Lines

/-!
# The shortest decimal of a binary number

Of the decimals that round to a given number, `Binary64.shortest` returns one with the
fewest digits, and of these the one nearest to the number. The decimals that round to
the number fill an interval around it, whose ends belong to it iff the mantissa is even.
If a grid of powers of ten has a point in the interval, then so has one of the number's
two neighbours on that grid, so grids are tried from coarse to fine and two points each.

`Spelling` holds the decisions about how such a decimal is written.
-/

namespace SettingsCompiler

/-- A decimal number : `digits * 10 ^ power`. -/
structure Decimal where
  digits : Nat
  power : Int
deriving DecidableEq, Repr

namespace Binary64

/-- The point of the grid of multiples of `10 ^ power` that lies in the interval of the
number `mantissa * 2 ^ scale`, the nearer of two. -/
def gridPoint? (mantissa : Nat) (scale power : Int) : Option Nat :=
  let quarter := scale - 2
  let (value, unit) := divPower 10 power (4 * mantissa) 1
  let (value, unit) := divPower 2 (-quarter) value unit
  let quarterWidth := value / (4 * mantissa)
  let narrow := mantissa = leastFull && leastScale < scale
  let low := value - (if narrow then 1 else 2) * quarterWidth
  let high := value + 2 * quarterWidth
  let inside (x : Nat) : Bool :=
    if mantissa % 2 = 0 then low ≤ x * unit && x * unit ≤ high
    else low < x * unit && x * unit < high
  let below := value / unit
  let above := below + 1
  match inside below, inside above with
  | true, true =>
    if value - below * unit < above * unit - value then some below
    else if above * unit - value < value - below * unit then some above
    else some (below + below % 2)
  | true, false => some below
  | false, true => some above
  | false, false => none

/-- The shortest decimal that rounds to the positive number `mantissa * 2 ^ scale`. -/
def shortest (mantissa : Nat) (scale : Int) : Decimal :=
  let top : Int := ((mantissa.log2 + scale + 1) * 30103).fdiv 100000 + 1
  let found := (List.range 24).findSome? fun (i : Nat) =>
    (gridPoint? mantissa scale (top - i)).map fun digits => Decimal.mk digits (top - i)
  found.getD ⟨0, 0⟩

end Binary64

/-! ## Writing a number -/

/-- How a number is written. -/
structure Spelling where
  /-- The least number of digits in front of the point of a decimal written in full ;
  zeros behind the point count negative. -/
  least : Int
  /-- The greatest number of digits in front of the point of a decimal written in full. -/
  greatest : Int
  /-- What comes before an exponent. -/
  exponentMark : String
  /-- The names of infinity, its negative and no number. -/
  infinity : String
  negativeInfinity : String
  notANumber : String

namespace Spelling

/-- A decimal in full or with an exponent ; a whole number in full ends in `.0`. -/
def decimal (f : Spelling) (d : Decimal) : String :=
  let digits := Nat.toDigits 10 d.digits
  let zeros (n : Int) : String := Text.replicate n.toNat "0"
  let point : Int := digits.length + d.power
  if 0 ≤ d.power && point ≤ f.greatest then
    String.ofList digits ++ zeros d.power ++ ".0"
  else if 0 < point && point ≤ f.greatest then
    String.ofList (digits.take point.toNat) ++ "." ++ String.ofList (digits.drop point.toNat)
  else if f.least ≤ point && point ≤ 0 then
    "0." ++ zeros (-point) ++ String.ofList digits
  else
    let exponent := f.exponentMark ++ toString (point - 1)
    match digits with
    | c :: d :: ds => String.ofList [c, '.', d] ++ String.ofList ds ++ exponent
    | ds => String.ofList ds ++ exponent

/-- The shortest text that reads back as the number. -/
def text (f : Spelling) : Binary64 → String
  | .nan => f.notANumber
  | .infinite negative => if negative then f.negativeInfinity else f.infinity
  | .finite negative mantissa scale =>
    (if negative then "-" else "") ++
      if mantissa = 0 then "0.0" else f.decimal (Binary64.shortest mantissa scale)

end Spelling

end SettingsCompiler
