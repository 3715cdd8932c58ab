/-!
# Binary numbers of 64 bits

A `Binary64` is a floating-point number given by its value : a mantissa times a power of
two, or an infinity, or no number. `Binary64.nearest?` rounds a decimal to it exactly,
ties to the even mantissa, with arithmetic on natural numbers alone ; a decimal beyond
the largest finite number has no nearest one.
-/

namespace SettingsCompiler

/-- A binary floating-point number of 64 bits. A finite number is `mantissa * 2 ^ scale`
with `scale` at least -1074, and the mantissa has 53 bits unless `scale` is least. -/
inductive Binary64
  | finite (negative : Bool) (mantissa : Nat) (scale : Int)
  | infinite (negative : Bool)
  | nan
deriving DecidableEq, Repr

namespace Binary64

/-- Whether two numbers are as good as equal : zero has no sign, and what is no number
equals itself. -/
def same : Binary64 → Binary64 → Bool
  | finite s m e, finite t n f => m == n && (m == 0 || (s == t && e == f))
  | infinite s, infinite t => s == t
  | nan, nan => true
  | _, _ => false

/-- The least power of two that a finite number is a multiple of. -/
def leastScale : Int := -1074

/-- The greatest power of two that a mantissa of 53 bits is multiplied by. -/
def greatestScale : Int := 971

/-- The least mantissa of 53 bits. -/
def leastFull : Nat := 0x10000000000000

/-- The quotient rounded to the nearest natural number, a tie to the even one. -/
def roundQuotient (num den : Nat) : Nat :=
  let q := num / den
  let r := num % den
  if 2 * r < den then q
  else if den < 2 * r then q + 1
  else q + q % 2

/-- Numerator and denominator of `num / den / base ^ power`. -/
def divPower (base : Nat) (power : Int) (num den : Nat) : Nat × Nat :=
  (num * Nat.pow base (-power).toNat, den * Nat.pow base power.toNat)

/-- The number nearest to the positive quotient `num / den`. -/
def ofQuotient? (negative : Bool) (num den : Nat) : Option Binary64 :=
  let estimate : Int := (num.log2 : Int) - den.log2 - 52
  let (n, d) := divPower 2 estimate num den
  let exact := if n / d < leastFull then estimate - 1 else estimate
  let scale := max exact leastScale
  let (n, d) := divPower 2 scale num den
  let m := roundQuotient n d
  let (m, scale) := if m = 2 * leastFull then (leastFull, scale + 1) else (m, scale)
  if greatestScale < scale then none else some (finite negative m scale)

/-- The number nearest to `digits * 10 ^ power`. -/
def nearest? (negative : Bool) (digits : Nat) (power : Int) : Option Binary64 :=
  let size : Int := (Nat.toDigits 10 digits).length + power
  if digits = 0 || size < -330 then some (finite negative 0 leastScale)
  else if 310 < size then none
  else
    let (n, d) := divPower 10 (-power) digits 1
    ofQuotient? negative n d

end Binary64

end SettingsCompiler
