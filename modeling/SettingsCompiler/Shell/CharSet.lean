/-!
# Sets of characters in brackets

What stands between brackets in a pattern or an expression : characters, ranges and named
classes of ASCII characters, all of them negated by a mark in front. A closing bracket in
the first place is a character of the set.

Such sets are part of the patterns of `sh` and of the expressions of `grep` and `sed`, formatters
that a configuration may name. No theorem is about them.
-/

namespace SettingsCompiler.Shell

/-- A set of characters. -/
structure CharSet where
  negated : Bool
  ranges : List (Char × Char)
deriving Repr

namespace CharSet

/-- Whether a character belongs to the set. -/
def contains (s : CharSet) (c : Char) : Bool :=
  (s.ranges.any fun r => r.1 ≤ c && c ≤ r.2) != s.negated

/-- The characters of a class with a name. -/
def named? (name : List Char) : Option (List (Char × Char)) :=
  match String.ofList name with
  | "alpha" => some [('a', 'z'), ('A', 'Z')]
  | "digit" => some [('0', '9')]
  | "alnum" => some [('a', 'z'), ('A', 'Z'), ('0', '9')]
  | "upper" => some [('A', 'Z')]
  | "lower" => some [('a', 'z')]
  | "space" => some [('\t', '\r'), (' ', ' ')]
  | "blank" => some [('\t', '\t'), (' ', ' ')]
  | "punct" => some [('!', '/'), (':', '@'), ('[', '\x60'), ('\x7b', '~')]
  | "print" => some [(' ', '~')]
  | "graph" => some [('!', '~')]
  | "cntrl" => some [('\x00', '\x1f'), ('\x7f', '\x7f')]
  | "xdigit" => some [('0', '9'), ('a', 'f'), ('A', 'F')]
  | _ => none

/-- The characters of a word. -/
def word : List (Char × Char) := [('a', 'z'), ('A', 'Z'), ('0', '9'), ('_', '_')]

/-- Ranges up to the closing bracket, and what follows it. -/
def ranges? : Nat → List Char → Option (List (Char × Char) × List Char)
  | 0, _ => none
  | fuel + 1, cs =>
    match cs with
    | ']' :: rest => some ([], rest)
    | '[' :: ':' :: rest => do
      let name := rest.takeWhile (· ≠ ':')
      let ':' :: ']' :: rest := rest.drop name.length | none
      let (more, rest) ← ranges? fuel rest
      return ((← named? name) ++ more, rest)
    | a :: '-' :: ']' :: rest => some ([(a, a), ('-', '-')], rest)
    | a :: '-' :: b :: rest => do
      let (more, rest) ← ranges? fuel rest
      return ((a, b) :: more, rest)
    | a :: rest => do
      let (more, rest) ← ranges? fuel rest
      return ((a, a) :: more, rest)
    | [] => none

/-- A set behind its opening bracket, and what follows it ; `marks` negate a set. -/
def ofBrackets? (marks : List Char) (cs : List Char) : Option (CharSet × List Char) := do
  let (negated, cs) := match cs with
    | c :: rest => if marks.contains c then (true, rest) else (false, cs)
    | [] => (false, cs)
  let (first, cs) := match cs with
    | ']' :: rest => ([(']', ']')], rest)
    | cs => ([], cs)
  let (ranges, rest) ← ranges? (cs.length + 1) cs
  return (⟨negated, first ++ ranges⟩, rest)

end CharSet

end SettingsCompiler.Shell
