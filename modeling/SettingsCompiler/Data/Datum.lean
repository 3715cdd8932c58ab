import SettingsCompiler.Decimal.Binary64

/-!
# Data of no fixed type

A `Datum` is a value as a document gives it where no type is asked for, such as the
default of a setting before its kind is known.
-/

namespace SettingsCompiler.Data

/-- A value of whatever type the document gives it. -/
inductive Datum
  | null
  | bool (b : Bool)
  | int (n : Int)
  | real (x : Binary64)
  | text (s : String)
  | list (items : List Datum)
  | map (entries : List (Datum × Datum))
  /-- A value with a tag of the document's own. -/
  | tagged (tag : String) (value : Datum)
deriving Repr

namespace Datum

mutual

/-- Whether two data are the same. The order of the entries of a mapping says nothing. -/
def same : Datum → Datum → Bool
  | null, null => true
  | bool a, bool b => a == b
  | int m, int n => m == n
  | real x, real y => x.same y
  | text s, text t => s == t
  | list xs, list ys => sameItems xs ys
  | map xs, map ys => xs.length == ys.length && within xs ys
  | tagged s x, tagged t y => s == t && same x y
  | _, _ => false

/-- Whether two lists have the same items. -/
def sameItems : List Datum → List Datum → Bool
  | [], [] => true
  | x :: xs, y :: ys => same x y && sameItems xs ys
  | _, _ => false

/-- Whether entries are all among others, with the same value. -/
def within : List (Datum × Datum) → List (Datum × Datum) → Bool
  | [], _ => true
  | (k, v) :: es, fs => (fs.any fun f => same k f.1 && same v f.2) && within es fs

end

/-- Whether a datum occurs twice. -/
def repeats : List Datum → Bool
  | [] => false
  | d :: ds => ds.any d.same || repeats ds

end Datum

end SettingsCompiler.Data
