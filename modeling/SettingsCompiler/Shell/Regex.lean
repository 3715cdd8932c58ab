import SettingsCompiler.Shell.CharSet
import SettingsCompiler.Text.Digits

/-!
# Regular expressions

Expressions in the basic and the extended notation, which differ in the operators that
need a backslash. An expression matches at the first place where it can, and there the
longest text it can (`Regex.search?`). Groups are numbered by their opening brackets.

They are the expressions of `grep` and `sed`, formatters that a configuration may name. No theorem
is about them.
-/

namespace SettingsCompiler.Shell

/-- A regular expression. -/
inductive Regex
  | empty
  | char (c : Char)
  | any
  | oneOf (s : CharSet)
  | textStart
  | textEnd
  | wordEdge
  | both (first second : Regex)
  | either (first second : Regex)
  /-- From `least` to `most` times, or without a bound. -/
  | times (body : Regex) (least : Nat) (most : Option Nat)
  | group (number : Nat) (body : Regex)
  | again (number : Nat)

namespace Regex

/-! ## Reading -/

/-- The text of an expression that is left, and the number of groups so far. -/
structure Draft where
  rest : List Char
  groups : Nat

/-- A step that may fail. -/
abbrev Step := StateT Draft Option

/-- Pass over an operator, if it is next. -/
def accept (operator : String) : Step Bool := do
  let d ← get
  if operator.toList.isPrefixOf d.rest then
    set { d with rest := d.rest.drop operator.length }
    return true
  else return false

/-- An operator, which has a backslash in the basic notation. -/
def operator (extended : Bool) (name : String) : String :=
  if extended then name else "\\" ++ name

/-- A number, if one is next. -/
def number : Step (Option Nat) := do
  let d ← get
  let digits := d.rest.takeWhile Char.isDigit
  set { d with rest := d.rest.drop digits.length }
  return if digits.isEmpty then none else some (Text.ofDigits digits)

/-- The bounds behind an opening brace. -/
def bounds (extended : Bool) : Step (Nat × Option Nat) := do
  let least ← number
  let most ← if ← accept "," then number else pure least
  if !(← accept (operator extended "\x7d")) then failure
  return (least.getD 0, most)

/-- The number of repetitions that is next. -/
def repetition? (extended : Bool) : Step (Option (Nat × Option Nat)) := do
  if ← accept "*" then return some (0, none)
  else if ← accept (operator extended "+") then return some (1, none)
  else if ← accept (operator extended "?") then return some (0, some 1)
  else if ← accept (operator extended "\x7b") then return some (← bounds extended)
  else return none

/-- What a backslash and a character stand for. -/
def escaped (c : Char) : Regex :=
  match c with
  | 'n' => char '\n'
  | 't' => char '\t'
  | 'r' => char '\r'
  | 'f' => char '\x0c'
  | 'v' => char '\x0b'
  | 'w' => oneOf ⟨false, CharSet.word⟩
  | 'W' => oneOf ⟨true, CharSet.word⟩
  | 's' => oneOf ⟨false, [('\t', '\r'), (' ', ' ')]⟩
  | 'S' => oneOf ⟨true, [('\t', '\r'), (' ', ' ')]⟩
  | 'b' | '<' | '>' => wordEdge
  | c => if c.isDigit && c ≠ '0' then again (c.toNat - '0'.toNat) else char c

mutual

/-- An expression. -/
def expression (extended : Bool) : Nat → Step Regex
  | 0 => failure
  | fuel + 1 => do
    let first ← sequence extended true fuel
    if ← accept (operator extended "|") then return .either first (← expression extended fuel)
    else return first

/-- Parts one behind the other ; `first` says whether none came before. -/
def sequence (extended first : Bool) : Nat → Step Regex
  | 0 => failure
  | fuel + 1 => do
    let d ← get
    let closing := (operator extended ")").toList
    let bar := (operator extended "|").toList
    if d.rest.isEmpty || closing.isPrefixOf d.rest || bar.isPrefixOf d.rest then return .empty
    else
      let part ← part extended first fuel
      let part ← repeated extended part fuel
      return .both part (← sequence extended false fuel)

/-- A part with its repetitions. -/
def repeated (extended : Bool) (body : Regex) : Nat → Step Regex
  | 0 => failure
  | fuel + 1 => do
    match ← repetition? extended with
    | some (least, most) => repeated extended (.times body least most) fuel
    | none => return body

/-- A part without repetitions. -/
def part (extended first : Bool) : Nat → Step Regex
  | 0 => failure
  | fuel + 1 => do
    if ← accept (operator extended "(") then
      let d ← get
      set { d with groups := d.groups + 1 }
      let body ← expression extended fuel
      if !(← accept (operator extended ")")) then failure
      return .group (d.groups + 1) body
    else
      let d ← get
      match d.rest with
      | [] => failure
      | c :: cs =>
        set { d with rest := cs }
        let closing := (operator extended ")").toList
        let bar := (operator extended "|").toList
        match c with
        | '.' => return .any
        | '[' =>
          let (s, rest) ← CharSet.ofBrackets? ['^'] cs
          modify fun d => { d with rest }
          return .oneOf s
        | '^' => return if extended || first then .textStart else .char '^'
        | '$' =>
          let last := cs.isEmpty || closing.isPrefixOf cs || bar.isPrefixOf cs
          return if extended || last then .textEnd else .char '$'
        | '*' => if first then return .char '*' else failure
        | '\\' =>
          match cs with
          | [] => failure
          | e :: cs =>
            modify fun d => { d with rest := cs }
            return escaped e
        | c => return .char c

end

/-- The expression of a text. -/
def ofText? (extended : Bool) (cs : List Char) : Option Regex := do
  let (r, d) ← (expression extended (4 * (cs.length + 1))).run ⟨cs, 0⟩
  if d.rest.isEmpty then return r else none

/-! ## Matching -/

/-- A place in a text and the extents of the groups, the latest first. -/
structure Place where
  pos : Nat
  groups : List (Nat × Nat × Nat)

/-- The characters that an expression is matched against, and whether upper and lower
case count as the same. -/
structure Subject where
  text : Array Char
  anyCase : Bool

/-- A character as it is compared. -/
def Subject.folded (s : Subject) (c : Char) : Char := if s.anyCase then c.toLower else c

/-- The place behind a character, if a test holds of it. -/
def Subject.step (s : Subject) (test : Char → Bool) (p : Place) : List Place :=
  match s.text[p.pos]? with
  | some c => if test c then [{ p with pos := p.pos + 1 }] else []
  | none => []

/-- Whether the character at a place belongs to a word. -/
def Subject.isWord (s : Subject) (pos : Nat) : Bool :=
  match s.text[pos]? with
  | some c => c.isAlphanum || c = '_'
  | none => false

/-- The places behind repetitions of a step, more of them first. -/
def iterate (step : Place → List Place) : Nat → Nat → Option Nat → Place → List Place
  | 0, least, _, p => if least = 0 then [p] else []
  | fuel + 1, least, most, p =>
    let more :=
      if most = some 0 then []
      else ((step p).filter fun q => p.pos < q.pos || 0 < least).flatMap
        (iterate step fuel (least - 1) (most.map (· - 1)))
    if least = 0 then more ++ [p] else more

/-- The places where a match that starts at a place may end. -/
def ends (s : Subject) : Regex → Place → List Place
  | empty, p => [p]
  | char c, p => s.step (fun d => s.folded d == s.folded c) p
  | any, p => s.step (fun _ => true) p
  | oneOf set, p => s.step (fun d => set.contains d || (s.anyCase &&
      (set.contains d.toLower || set.contains d.toUpper))) p
  | textStart, p => if p.pos = 0 then [p] else []
  | textEnd, p => if p.pos = s.text.size then [p] else []
  | wordEdge, p => if (0 < p.pos && s.isWord (p.pos - 1)) != s.isWord p.pos then [p] else []
  | both a b, p => (ends s a p).flatMap (ends s b)
  | either a b, p => ends s a p ++ ends s b p
  | times a least most, p => iterate (ends s a) (s.text.size + least + 1) least most p
  | group n a, p => (ends s a p).map fun q => { q with groups := (n, p.pos, q.pos) :: q.groups }
  | again n, p =>
    match p.groups.lookup n with
    | some (start, stop) =>
      let part := s.text.extract start stop
      if s.text.extract p.pos (p.pos + part.size) == part then
        [{ p with pos := p.pos + part.size }]
      else []
    | none => []

/-- The first of the places that are furthest on. -/
def furthest? : List Place → Option Place
  | [] => none
  | p :: ps => match furthest? ps with
    | some q => if p.pos < q.pos then some q else some p
    | none => some p

/-- The first match from a position on : where it starts, and where it ends. -/
def search? (s : Subject) (r : Regex) (start : Nat) : Option (Nat × Place) :=
  (List.range (s.text.size + 1 - start)).findSome? fun n =>
    (furthest? (r.ends s ⟨start + n, []⟩)).map fun p => (start + n, p)

end Regex

end SettingsCompiler.Shell
