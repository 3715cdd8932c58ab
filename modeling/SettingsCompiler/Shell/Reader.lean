import SettingsCompiler.Shell.Syntax
import SettingsCompiler.Text.Digits

/-!
# Reading scripts

A script is read by recursive descent on its characters. How a character of a word is
read depends on the quotes or braces around it (`Quoting`). A document in the script
begins on the line after the command that reads it, so the documents that a line
announces wait until its end.

The commands that start on one line are read together, and a script is run as far as it
can be read : `Script.ofText` stops at the first line with a fault.

The reader stands for that of `sh`, a formatter that a configuration may name. No theorem is about
it.
-/

namespace SettingsCompiler.Shell

/-! ## Characters and names -/

/-- A space or a tab. -/
def isBlank (c : Char) : Bool := c = ' ' || c = '\t'

/-- A character that ends a word without quotes. -/
def endsWord (c : Char) : Bool :=
  isBlank c || c = '\n' || c = ';' || c = '&' || c = '|' || c = '<' || c = '>' || c = '(' ||
    c = ')'

/-- A character that a name may start with. -/
def startsName (c : Char) : Bool := c.isAlpha || c = '_'

/-- A character of a name. -/
def isNameChar (c : Char) : Bool := c.isAlphanum || c = '_'

/-- A parameter with a name of one character that is no letter. -/
def isSpecialName (c : Char) : Bool :=
  c = '@' || c = '*' || c = '#' || c = '?' || c = '-' || c = '$' || c = '!'

/-- The text behind blanks and a comment. -/
def skipBlanks : List Char → List Char
  | '\\' :: '\n' :: cs => skipBlanks cs
  | c :: cs =>
    if isBlank c then skipBlanks cs
    else if c = '#' then cs.dropWhile (· ≠ '\n')
    else c :: cs
  | [] => []

/-- The words that have a meaning of their own in the place of a command. -/
def reservedWords : List String :=
  ["!", "\x7b", "\x7d", "case", "do", "done", "elif", "else", "esac", "fi", "for", "if", "then",
    "until", "while"]

/-- The reserved words that end a list of commands. -/
def closingWords : List String := ["\x7d", "do", "done", "elif", "else", "esac", "fi", "then"]

/-- The reserved word that is next. -/
def reserved? (cs : List Char) : Option String :=
  let word := String.ofList (cs.takeWhile (!endsWord ·))
  if reservedWords.contains word then some word else none

/-- How the characters of a word are read. -/
inductive Quoting
  | bare
  /-- Between double quotes. -/
  | double
  /-- In a document of the script. -/
  | document
  /-- Between the braces of a parameter, inside of double quotes iff `quoted`. -/
  | braces (quoted : Bool)
  /-- In an arithmetic expression, with so many brackets open. -/
  | arithmetic (depth : Nat)
deriving DecidableEq, Repr

namespace Quoting

/-- Whether text is taken as it is. -/
def isQuoted : Quoting → Bool
  | bare | braces false => false
  | _ => true

/-- Whether a character ends the word. -/
def ends (q : Quoting) (c : Char) : Bool :=
  match q with
  | bare => endsWord c
  | double => c = '\x22'
  | document => false
  | braces _ => c = '\x7d'
  | arithmetic _ => false

/-- Whether a character is not just itself. -/
def isSpecial (q : Quoting) (c : Char) : Bool :=
  q.ends c || c = '\\' || c = '$' || c = '\x60' ||
    match q with
    | bare | braces false => c = '\x27' || c = '\x22'
    | double | braces true => c = '\x22'
    | document => false
    | arithmetic _ => c = '(' || c = ')'

/-- Whether a backslash before a character goes away. -/
def escapes (q : Quoting) (c : Char) : Bool :=
  c = '$' || c = '\x60' || c = '\\' ||
    match q with
    | document => false
    | braces _ => c = '\x22' || c = '\x7d'
    | _ => c = '\x22'

end Quoting

/-! ## The state -/

/-- A document that begins on the next line : the line that ends it, whether its text is
taken as it is, and whether tabs in front of its lines go away. -/
structure Announced where
  last : List Char
  quoted : Bool
  stripped : Bool

/-- The text still to be read, the documents announced on this line, and those read. -/
structure Reader where
  rest : List Char
  announced : List Announced
  documents : List Word
  count : Nat

namespace Reader

/-- A step that may fail. -/
abbrev Step := StateT Reader Option

/-- The text still to be read. -/
def remaining : Step (List Char) := return (← get).rest

/-- Go on at a place. -/
def goTo (rest : List Char) : Step Unit := modify fun r => { r with rest }

/-- Pass over blanks and a comment. -/
def blanks : Step Unit := modify fun r => { r with rest := skipBlanks r.rest }

/-- Pass over an operator, if it is next. -/
def accept (operator : String) : Step Bool := do
  let rest ← remaining
  if operator.toList.isPrefixOf rest then
    goTo (rest.drop operator.length)
    return true
  else return false

/-- Pass over an operator, which must be next. -/
def expect (operator : String) : Step Unit := do
  blanks
  if !(← accept operator) then failure

/-- The reserved word that is next. -/
def nextReserved : Step (Option String) := do
  blanks
  return reserved? (← remaining)

/-- Pass over a reserved word, which must be next. -/
def expectWord (word : String) : Step Unit := do
  if (← nextReserved) = some word then goTo ((← remaining).drop word.length) else failure

/-- Whether a list of commands ends here. -/
def atListEnd : Step Bool := do
  blanks
  let rest ← remaining
  return rest.isEmpty || rest.head? = some ')' || [';', ';'].isPrefixOf rest ||
    (reserved? rest).any closingWords.contains

/-- A name. -/
def name : Step String := do
  let rest ← remaining
  let cs := rest.takeWhile isNameChar
  if cs.head?.any startsName then
    goTo (rest.drop cs.length)
    return String.ofList cs
  else failure

/-- The name of a parameter. -/
def parameterName : Step String := do
  match ← remaining with
  | c :: cs =>
    if isSpecialName c then
      goTo cs
      return String.singleton c
    else if c.isDigit then
      goTo (cs.dropWhile Char.isDigit)
      return String.ofList (c :: cs.takeWhile Char.isDigit)
    else name
  | [] => failure

/-- A list of commands that is not empty. -/
def present (c : Command) : Step Command := if c.isNothing then failure else return c

/-- The text of a document and the text behind it. -/
def documentText (d : Announced) : Nat → List Char → List Char × List Char
  | 0, cs => ([], cs)
  | fuel + 1, cs =>
    let line := cs.takeWhile (· ≠ '\n')
    let kept := if d.stripped then line.dropWhile (· = '\t') else line
    match cs.drop line.length with
    | [] => (if kept = d.last then [] else kept, [])
    | _ :: rest =>
      if kept = d.last then ([], rest)
      else
        let (text, rest) := documentText d fuel rest
        (kept ++ '\n' :: text, rest)

/-- The text of commands between back quotes, and what is behind it. -/
def backQuoted (quoted : Bool) : List Char → Option (List Char × List Char)
  | [] => none
  | '\x60' :: cs => some ([], cs)
  | '\\' :: c :: cs =>
    let dropped := c = '\x60' || c = '\\' || c = '$' || (quoted && c = '\x22')
    (backQuoted quoted cs).map fun (text, rest) =>
      (if dropped then c :: text else '\\' :: c :: text, rest)
  | c :: cs => (backQuoted quoted cs).map fun (text, rest) => (c :: text, rest)

/-- The characters of a word, and whether some are quoted. -/
def plainText : Word → List Char × Bool
  | [] => ([], false)
  | .text quoted cs :: ps =>
    let (rest, more) := plainText ps
    (cs ++ rest, quoted || more)
  | _ :: ps => plainText ps

/-- The descriptor and the operator of a redirect, if one is next, and what follows. -/
def redirect? (cs : List Char) : Option (Option Nat × String × List Char) :=
  let digits := cs.takeWhile Char.isDigit
  let rest := cs.drop digits.length
  let descriptor := if digits.isEmpty then none else some (Text.ofDigits digits)
  ["<<-", "<<", "<&", "<>", "<", ">>", ">&", ">|", ">"].findSome? fun operator =>
    if operator.toList.isPrefixOf rest then
      some (descriptor, operator, rest.drop operator.length)
    else none

/-! ## The grammar -/

mutual

/-- The parts of a word. -/
def parts (q : Quoting) : Nat → Step Word
  | 0 => failure
  | fuel + 1 => do
    match ← remaining with
    | [] => if q = .bare || q = .document then return [] else failure
    | c :: cs =>
      if q.ends c then return []
      else if !q.isSpecial c then
        let run := (c :: cs).takeWhile (!q.isSpecial ·)
        goTo ((c :: cs).drop run.length)
        return .text q.isQuoted run :: (← parts q fuel)
      else
        goTo cs
        match c, cs with
        | '\\', [] => return [.text true ['\\']]
        | '\\', e :: rest =>
          goTo rest
          if e = '\n' then parts q fuel
          else if !q.isQuoted || q.escapes e then return .text true [e] :: (← parts q fuel)
          else return .text true ['\\', e] :: (← parts q fuel)
        | '\x27', _ =>
          let run := cs.takeWhile (· ≠ '\x27')
          if cs.length ≤ run.length then failure
          goTo (cs.drop (run.length + 1))
          return .text true run :: (← parts q fuel)
        | '\x22', _ =>
          let inner ← parts .double fuel
          if !(← accept "\x22") then failure
          return .text true [] :: inner ++ (← parts q fuel)
        | '\x60', _ =>
          match backQuoted q.isQuoted cs with
          | none => failure
          | some (text, rest) =>
            goTo text
            let body ← list fuel
            if !(← remaining).isEmpty then failure
            goTo rest
            return .output q.isQuoted body :: (← parts q fuel)
        | '$', _ =>
          let part ← dollar q.isQuoted fuel
          return part :: (← parts q fuel)
        | '(', _ =>
          match q with
          | .arithmetic depth => return .text true ['('] :: (← parts (.arithmetic (depth + 1)) fuel)
          | _ => failure
        | ')', _ =>
          match q with
          | .arithmetic 0 => if ← accept ")" then return [] else failure
          | .arithmetic (depth + 1) => return .text true [')'] :: (← parts (.arithmetic depth) fuel)
          | _ => failure
        | _, _ => failure

/-- What a dollar sign begins. -/
def dollar (quoted : Bool) : Nat → Step Part
  | 0 => failure
  | fuel + 1 => do
    match ← remaining with
    | '(' :: '(' :: cs =>
      goTo cs
      return .arithmetic quoted (← parts (.arithmetic 0) fuel)
    | '(' :: cs =>
      goTo cs
      let body ← list fuel
      expect ")"
      return .output quoted body
    | '\x7b' :: cs =>
      goTo cs
      braced quoted fuel
    | c :: cs =>
      if startsName c then return .parameter quoted (← name) .value
      else if c.isDigit || isSpecialName c then
        goTo cs
        return .parameter quoted (String.singleton c) .value
      else return .text quoted ['$']
    | [] => return .text quoted ['$']

/-- A parameter between braces. -/
def braced (quoted : Bool) : Nat → Step Part
  | 0 => failure
  | fuel + 1 => do
    let here ← get
    let length : Option (String × Reader) := do
      let '#' :: cs := here.rest | none
      let (name, r) ← parameterName.run { here with rest := cs }
      let '\x7d' :: cs := r.rest | none
      return (name, { r with rest := cs })
    match length with
    | some (name, r) =>
      set r
      return .parameter quoted name .length
    | none =>
      let name ← parameterName
      if ← accept "\x7d" then return .parameter quoted name .value
      let orEmpty ← accept ":"
      let use ←
        if ← accept "-" then pure (Use.orElse orEmpty (← parts (.braces quoted) fuel))
        else if ← accept "=" then pure (Use.assign orEmpty (← parts (.braces quoted) fuel))
        else if ← accept "?" then pure (Use.demand orEmpty (← parts (.braces quoted) fuel))
        else if ← accept "+" then pure (Use.ifSet orEmpty (← parts (.braces quoted) fuel))
        else if orEmpty then failure
        else if ← accept "%%" then pure (Use.trim true true (← parts (.braces false) fuel))
        else if ← accept "%" then pure (Use.trim true false (← parts (.braces false) fuel))
        else if ← accept "##" then pure (Use.trim false true (← parts (.braces false) fuel))
        else if ← accept "#" then pure (Use.trim false false (← parts (.braces false) fuel))
        else failure
      if !(← accept "\x7d") then failure
      return .parameter quoted name use

/-- Pass over the end of a line and the documents that it announced. -/
def lineEnd : Nat → Step Unit
  | 0 => failure
  | fuel + 1 => do
    if !(← accept "\n") then failure
    takeDocuments fuel

/-- Read the documents that were announced. -/
def takeDocuments : Nat → Step Unit
  | 0 => failure
  | fuel + 1 => do
    let r ← get
    match r.announced with
    | [] => return ()
    | d :: more =>
      let (text, rest) := documentText d (r.rest.length + 1) r.rest
      set { r with rest := text, announced := more }
      let word ← if d.quoted then pure [.text true text] else parts .document fuel
      modify fun r => { r with rest, documents := r.documents ++ [word] }
      takeDocuments fuel

/-- Pass over blanks, comments and line ends. -/
def newLines : Nat → Step Unit
  | 0 => failure
  | fuel + 1 => do
    blanks
    if (← remaining).head? = some '\n' then
      lineEnd fuel
      newLines fuel

/-- Commands up to where a list of commands ends. -/
def list : Nat → Step Command
  | 0 => failure
  | fuel + 1 => do
    newLines fuel
    if ← atListEnd then return .nothing
    let first ← chain (← pipeline fuel) fuel
    blanks
    match ← remaining with
    | '\n' :: _ => return .sequence first (← list fuel)
    | ';' :: ';' :: _ => return first
    | ';' :: cs =>
      goTo cs
      return .sequence first (← list fuel)
    | '&' :: cs =>
      goTo cs
      return .sequence (.background first) (← list fuel)
    | _ => return first

/-- Pipelines behind another, each on a condition. -/
def chain (first : Command) : Nat → Step Command
  | 0 => failure
  | fuel + 1 => do
    blanks
    if ← accept "&&" then
      newLines fuel
      chain (.chain true first (← pipeline fuel)) fuel
    else if ← accept "||" then
      newLines fuel
      chain (.chain false first (← pipeline fuel)) fuel
    else return first

/-- Commands that each read what the one before prints. -/
def pipeline : Nat → Step Command
  | 0 => failure
  | fuel + 1 => do
    if (← nextReserved) = some "!" then
      expectWord "!"
      return .negation (← pipeline fuel)
    else
      let first ← command fuel
      match ← pipes fuel with
      | [] => return first
      | more => return .pipeline (first :: more)

/-- The further commands of a pipeline. -/
def pipes : Nat → Step (List Command)
  | 0 => failure
  | fuel + 1 => do
    blanks
    match ← remaining with
    | '|' :: '|' :: _ => return []
    | '|' :: cs =>
      goTo cs
      newLines fuel
      return (← command fuel) :: (← pipes fuel)
    | _ => return []

/-- A command. -/
def command : Nat → Step Command
  | 0 => failure
  | fuel + 1 => do
    let compound (body : Command) : Step Command := do
      match ← redirects fuel with
      | [] => return body
      | more => return .redirected body more
    let word ← nextReserved
    if ← accept "(" then
      let body ← present (← list fuel)
      expect ")"
      compound (.subshell body)
    else match word with
      | some "\x7b" =>
        expectWord "\x7b"
        let body ← present (← list fuel)
        expectWord "\x7d"
        compound body
      | some "if" =>
        expectWord "if"
        compound (← choice fuel)
      | some "while" | some "until" =>
        expectWord (word.getD "")
        let condition ← present (← list fuel)
        expectWord "do"
        let body ← present (← list fuel)
        expectWord "done"
        compound (.loop (word = some "while") condition body)
      | some "for" =>
        expectWord "for"
        blanks
        let name ← name
        newLines fuel
        let rest ← remaining
        let words ←
          if rest.takeWhile (!endsWord ·) = "in".toList then
            goTo (rest.drop 2)
            let words ← words fuel
            pure (some words)
          else pure none
        blanks
        let _ ← accept ";"
        newLines fuel
        expectWord "do"
        let body ← present (← list fuel)
        expectWord "done"
        compound (.forEach name words body)
      | some "case" =>
        expectWord "case"
        blanks
        let subject ← parts .bare fuel
        newLines fuel
        let rest ← remaining
        if rest.takeWhile (!endsWord ·) ≠ "in".toList then failure
        goTo (rest.drop 2)
        compound (.select subject (← branches fuel))
      | some _ => failure
      | none =>
        let rest ← remaining
        let name := rest.takeWhile isNameChar
        match skipBlanks (rest.drop name.length) with
        | '(' :: cs =>
          if name.head?.any startsName then
            goTo (skipBlanks cs)
            expect ")"
            newLines fuel
            return .function (String.ofList name) (← command fuel)
          else failure
        | _ =>
          match ← elements true fuel with
          | .simple [] [] [] => failure
          | c => return c

/-- The rest of a choice, behind `if`. -/
def choice : Nat → Step Command
  | 0 => failure
  | fuel + 1 => do
    let condition ← present (← list fuel)
    expectWord "then"
    let body ← present (← list fuel)
    match ← nextReserved with
    | some "elif" =>
      expectWord "elif"
      return .choice condition body (← choice fuel)
    | some "else" =>
      expectWord "else"
      let otherwise ← present (← list fuel)
      expectWord "fi"
      return .choice condition body otherwise
    | _ =>
      expectWord "fi"
      return .choice condition body .nothing

/-- Words up to the end of the line or a semicolon. -/
def words : Nat → Step (List Word)
  | 0 => failure
  | fuel + 1 => do
    blanks
    match ← remaining with
    | [] => return []
    | c :: _ =>
      if endsWord c then return []
      else
        let word ← parts .bare fuel
        return word :: (← words fuel)

/-- The branches of a selection. -/
def branches : Nat → Step (List (List Word × Command))
  | 0 => failure
  | fuel + 1 => do
    newLines fuel
    if (← nextReserved) = some "esac" then
      expectWord "esac"
      return []
    else
      let _ ← accept "("
      let alternatives ← patterns fuel
      let body ← list fuel
      blanks
      if !(← accept ";;") && (← nextReserved) ≠ some "esac" then failure
      return (alternatives, body) :: (← branches fuel)

/-- The patterns in front of a branch. -/
def patterns : Nat → Step (List Word)
  | 0 => failure
  | fuel + 1 => do
    blanks
    let pattern ← parts .bare fuel
    if pattern.isEmpty then failure
    blanks
    if ← accept "|" then return pattern :: (← patterns fuel)
    else
      expect ")"
      return [pattern]

/-- The redirects that follow. -/
def redirects : Nat → Step (List Redirect)
  | 0 => failure
  | fuel + 1 => do
    blanks
    match redirect? (← remaining) with
    | none => return []
    | some (descriptor, operator, rest) =>
      goTo rest
      let first ← redirect descriptor operator fuel
      return first :: (← redirects fuel)

/-- A redirect behind its operator. -/
def redirect (descriptor : Option Nat) (operator : String) : Nat → Step Redirect
  | 0 => failure
  | fuel + 1 => do
    blanks
    let word ← parts .bare fuel
    if word.isEmpty then failure
    match operator with
    | "<" | "<>" => return .input (descriptor.getD 0) word
    | "<&" => return .copy (descriptor.getD 0) word
    | ">" | ">|" => return .output (descriptor.getD 1) false word
    | ">>" => return .output (descriptor.getD 1) true word
    | ">&" => return .copy (descriptor.getD 1) word
    | _ =>
      let (last, quoted) := plainText word
      let r ← get
      let d : Announced := ⟨last, quoted, operator == "<<-"⟩
      set { r with announced := r.announced ++ [d], count := r.count + 1 }
      return .document (descriptor.getD 0) r.count

/-- Assignments, as long as `first`, words and redirects. -/
def elements (first : Bool) : Nat → Step Command
  | 0 => failure
  | fuel + 1 => do
    let next (first : Bool) (add : List (String × Word) × List Word × List Redirect →
        List (String × Word) × List Word × List Redirect) : Step Command := do
      match ← elements first fuel with
      | .simple assignments words redirects =>
        let (assignments, words, redirects) := add (assignments, words, redirects)
        return .simple assignments words redirects
      | c => return c
    blanks
    let rest ← remaining
    match redirect? rest with
    | some (descriptor, operator, rest) =>
      goTo rest
      let redirect ← redirect descriptor operator fuel
      next first fun (as, ws, rs) => (as, ws, redirect :: rs)
    | none =>
      match rest with
      | [] => return .simple [] [] []
      | c :: _ =>
        if endsWord c then return .simple [] [] []
        else
          let name := rest.takeWhile isNameChar
          if first && startsName c && (rest.drop name.length).head? = some '=' then
            goTo (rest.drop (name.length + 1))
            let value ← parts .bare fuel
            next true fun (as, ws, rs) => ((String.ofList name, value) :: as, ws, rs)
          else
            let word ← parts .bare fuel
            next false fun (as, ws, rs) => (as, word :: ws, rs)

end

/-- The commands that start on this line. -/
def line (fuel : Nat) : Nat → Step Command
  | 0 => failure
  | more + 1 => do
    let first ← chain (← pipeline fuel) fuel
    blanks
    let first := if (← remaining).head? = some '&' then .background first else first
    let separated := (← accept ";") || (← accept "&")
    blanks
    match ← remaining with
    | [] =>
      takeDocuments fuel
      return first
    | '\n' :: _ =>
      lineEnd fuel
      return first
    | _ => if separated then return .sequence first (← line fuel more) else failure

/-- The commands of a script, line by line, as far as they can be read. -/
def lines (fuel : Nat) : Nat → Reader → Script
  | 0, r => ⟨[], r.documents, false⟩
  | more + 1, r =>
    match (newLines fuel).run r with
    | none => ⟨[], r.documents, false⟩
    | some (_, r) =>
      if r.rest.isEmpty then ⟨[], r.documents, true⟩
      else match (line fuel (r.rest.length + 1)).run r with
        | none => ⟨[], r.documents, false⟩
        | some (c, r) =>
          let script := lines fuel more r
          { script with commands := c :: script.commands }

end Reader

/-- How many steps deep the reading of a script goes for each of its characters. -/
def stepsPerChar : Nat := 16

/-- The script of a text. -/
def Script.ofText (cs : List Char) : Script :=
  Reader.lines (stepsPerChar * (cs.length + 1)) (cs.length + 1) ⟨cs, [], [], 0⟩

end SettingsCompiler.Shell
