import SettingsCompiler.Shell.Reader

/-!
# Arithmetic expressions

Whole numbers of 64 bits with the usual operators. An expression is evaluated while it is
read ; in the branch that a condition leaves out, only its extent counts. A name stands
for the value of a variable, and an assignment changes it.

These expressions stand in scripts of `sh`, a formatter that a configuration may name. No theorem
is about them.
-/

namespace SettingsCompiler.Shell

/-- A text under evaluation : what is left of it, and the variables. -/
structure Evaluation where
  rest : List Char
  bindings : List (String × String)

namespace Evaluation

/-- A step that may fail. -/
abbrev Step := StateT Evaluation Option

/-- A number of 64 bits. -/
def wrapped (n : Int) : Int := (Int64.ofInt n).toInt

/-- Pass over the longest of the operators that is next. -/
def accept (operators : List String) : Step (Option String) := do
  modify fun e => { e with rest := e.rest.dropWhile fun c => isBlank c || c = '\n' }
  let rest := (← get).rest
  match operators.find? fun o => o.toList.isPrefixOf rest with
  | some o =>
    modify fun e => { e with rest := rest.drop o.length }
    return some o
  | none => return none

/-- The number that a text spells : in octal behind a zero, in hexadecimal behind `0x`. -/
def spelled? (cs : List Char) : Option Int :=
  let (negative, cs) := match cs with
    | '-' :: cs => (true, cs)
    | '+' :: cs => (false, cs)
    | cs => (false, cs)
  let n? := match cs with
    | '0' :: 'x' :: cs | '0' :: 'X' :: cs => Text.digits? 16 cs
    | '0' :: c :: cs => Text.digits? 8 (c :: cs)
    | cs => Text.digits? 10 cs
  n?.map fun n => if negative then -(n : Int) else n

/-- The number of 64 bits that is nearest to a number. -/
def clamped (n : Int) : Int := max Int64.minValue.toInt (min Int64.maxValue.toInt n)

/-- The number of 64 bits that a text spells. -/
def number? (cs : List Char) : Option Int := (spelled? cs).map clamped

/-- The value of a variable, zero if it is empty or not set. -/
def value (name : String) : Step Int := do
  match (← get).bindings.lookup name with
  | none | some "" => return 0
  | some s => number? s.toList

/-- A variable with another value. -/
def assign (name : String) (n : Int) : Step Unit :=
  modify fun e => { e with bindings := (name, toString n) :: e.bindings }

/-- The operators between two operands, the loosest first. -/
def levels : List (List String) :=
  [["||"], ["&&"], ["|"], ["^"], ["&"], ["==", "!="], ["<=", ">=", "<", ">"], ["<<", ">>"],
    ["+", "-"], ["*", "/", "%"]]

/-- The operators that an operator of a level may not be the start of. -/
def longer (operator : String) : List String :=
  match operator with
  | "|" => ["||", "|="]
  | "&" => ["&&", "&="]
  | "^" => ["^="]
  | "<" => ["<<"]
  | ">" => [">>"]
  | "<<" => ["<<="]
  | ">>" => [">>="]
  | "+" => ["+="]
  | "-" => ["-="]
  | "*" => ["*="]
  | "/" => ["/="]
  | "%" => ["%="]
  | _ => []

/-- Pass over an operator of a level that is not the start of a longer one. -/
def acceptOf (operators : List String) : Step (Option String) := do
  let before ← get
  match ← accept operators with
  | some o =>
    let here ← get
    match ← accept (longer o |>.map fun l => String.ofList (l.toList.drop o.length)) with
    | some _ =>
      set before
      return none
    | none =>
      set { here with rest := here.rest }
      return some o
  | none => return none

/-- The result of an operator ; none for a division by zero. -/
def combine? (operator : String) (a b : Int) : Option Int :=
  let flag (b : Bool) : Int := if b then 1 else 0
  let bits (f : Int64 → Int64 → Int64) : Int := (f (Int64.ofInt a) (Int64.ofInt b)).toInt
  match operator with
  | "|" => some (bits (· ||| ·))
  | "^" => some (bits (· ^^^ ·))
  | "&" => some (bits (· &&& ·))
  | "==" => some (flag (a == b))
  | "!=" => some (flag (a != b))
  | "<=" => some (flag (a ≤ b))
  | ">=" => some (flag (b ≤ a))
  | "<" => some (flag (a < b))
  | ">" => some (flag (b < a))
  | "<<" => some (bits (· <<< ·))
  | ">>" => some (bits (· >>> ·))
  | "+" => some (wrapped (a + b))
  | "-" => some (wrapped (a - b))
  | "*" => some (wrapped (a * b))
  | "/" => if b = 0 then none else some (wrapped (a.tdiv b))
  | "%" => if b = 0 then none else some (wrapped (a.tmod b))
  | _ => some b

mutual

/-- An expression ; `live` says whether its value is used. -/
def expression (live : Bool) : Nat → Step Int
  | 0 => failure
  | fuel + 1 => do
    let before ← get
    let _ ← accept []
    let rest := (← get).rest
    let name := rest.takeWhile isNameChar
    if name.head?.any startsName then
      modify fun e => { e with rest := rest.drop name.length }
      let name := String.ofList name
      match ← accept ["==", "=", "<<=", ">>=", "*=", "/=", "%=", "+=", "-=", "&=", "^=", "|="] with
      | none | some "==" =>
        set before
        conditional live fuel
      | some o =>
        let b ← expression live fuel
        if live then
          let old ← if o = "=" then pure 0 else value name
          let n ← combine? (String.ofList o.toList.dropLast) old b
          assign name n
          return n
        else return 0
    else
      set before
      conditional live fuel

/-- A condition with two branches, or an expression without one. -/
def conditional (live : Bool) : Nat → Step Int
  | 0 => failure
  | fuel + 1 => do
    let c ← binary live levels fuel
    match ← accept ["?"] with
    | none => return c
    | some _ =>
      let a ← expression (live && c ≠ 0) fuel
      if (← accept [":"]).isNone then failure
      let b ← expression (live && c = 0) fuel
      return if c = 0 then b else a

/-- Operands with operators of some levels between them. -/
def binary (live : Bool) (levels : List (List String)) : Nat → Step Int
  | 0 => failure
  | fuel + 1 => do
    match levels with
    | [] => unary live fuel
    | operators :: tighter =>
      let first ← binary live tighter fuel
      further live operators tighter first fuel

/-- Further operands on one level. -/
def further (live : Bool) (operators : List String) (tighter : List (List String)) (a : Int) :
    Nat → Step Int
  | 0 => failure
  | fuel + 1 => do
    match ← acceptOf operators with
    | none => return a
    | some "||" =>
      let b ← binary (live && a = 0) tighter fuel
      further live operators tighter (if a ≠ 0 || b ≠ 0 then 1 else 0) fuel
    | some "&&" =>
      let b ← binary (live && a ≠ 0) tighter fuel
      further live operators tighter (if a ≠ 0 && b ≠ 0 then 1 else 0) fuel
    | some o =>
      let b ← binary live tighter fuel
      let n ← if live then combine? o a b else pure 0
      further live operators tighter n fuel

/-- An operand. -/
def unary (live : Bool) : Nat → Step Int
  | 0 => failure
  | fuel + 1 => do
    match ← accept ["-", "+", "!", "~", "("] with
    | some "-" => return wrapped (-(← unary live fuel))
    | some "+" => unary live fuel
    | some "!" => return if (← unary live fuel) = 0 then 1 else 0
    | some "~" => return -(← unary live fuel) - 1
    | some _ =>
      let n ← expression live fuel
      if (← accept [")"]).isNone then failure
      return n
    | none =>
      let rest := (← get).rest
      let word := rest.takeWhile isNameChar
      modify fun e => { e with rest := rest.drop word.length }
      if word.head?.any startsName then value (String.ofList word)
      else number? word

end

end Evaluation

/-- How many steps deep an evaluation goes for each character. -/
def stepsPerOperator : Nat := 16

/-- The value of an expression and the variables then. -/
def evaluate? (bindings : List (String × String)) (cs : List Char) :
    Option (Int × List (String × String)) := do
  let blank (c : Char) : Bool := isBlank c || c = '\n'
  if cs.all blank then return (0, bindings)
  let (n, e) ← (Evaluation.expression true (stepsPerOperator * (cs.length + 1))).run
    ⟨cs, bindings⟩
  if e.rest.all blank then return (n, e.bindings) else none

end SettingsCompiler.Shell
