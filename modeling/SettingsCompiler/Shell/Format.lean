import SettingsCompiler.Shell.Arithmetic
import SettingsCompiler.Text.Lines

/-!
# Printing arguments

`echo` prints its arguments with the escapes in them read. `printf` prints a text whose
places are filled with arguments, and prints it again as long as arguments are left.

Both stand for the commands of these names that a formatter may run. No theorem is about them.
-/

namespace SettingsCompiler.Shell

/-! ## Escapes -/

/-- The character that a backslash and a letter stand for. -/
def escaped? : Char → Option Char
  | 'a' => some '\x07'
  | 'b' => some '\x08'
  | 'e' => some '\x1b'
  | 'f' => some '\x0c'
  | 'n' => some '\n'
  | 'r' => some '\r'
  | 't' => some '\t'
  | 'v' => some '\x0b'
  | '\\' => some '\\'
  | _ => none

/-- Whether a character is a digit in base eight. -/
def isOctal (c : Char) : Bool := '0' ≤ c && c ≤ '7'

/-- The character with the code that digits in base eight spell. -/
def octal (digits : List Char) : Char := Char.ofNat ((Text.digits? 8 digits).getD 0 % 256)

/-- A text with its escapes read, and whether one of them ended it. A code stands behind
a zero iff `zeroFirst`. -/
def unescape (zeroFirst : Bool) : Nat → List Char → List Char × Bool
  | 0, _ => ([], false)
  | fuel + 1, cs =>
    let after (c : Char) (rest : List Char) : List Char × Bool :=
      let (text, ended) := unescape zeroFirst fuel rest
      (c :: text, ended)
    match cs with
    | [] => ([], false)
    | '\\' :: 'c' :: rest => if zeroFirst then ([], true) else
      let (text, ended) := after 'c' rest
      ('\\' :: text, ended)
    | '\\' :: c :: rest =>
      match escaped? c with
      | some e => after e rest
      | none =>
        let digits := if zeroFirst then rest else c :: rest
        if isOctal c && (!zeroFirst || c = '0') then
          let run := (digits.take 3).takeWhile isOctal
          after (octal run) (digits.drop run.length)
        else if c = '\x22' && !zeroFirst then after c rest
        else
          let (text, ended) := after c rest
          ('\\' :: text, ended)
    | c :: rest => after c rest

/-- The text that `echo` prints. -/
def echoed (args : List String) : String :=
  let (newLine, args) := match args with
    | "-n" :: args => (false, args)
    | args => (true, args)
  let cs := (Text.joinWith " " args).toList
  let (text, ended) := unescape true (cs.length + 1) cs
  String.ofList (if newLine && !ended then text ++ ['\n'] else text)

/-! ## Places -/

/-- How a place is filled. -/
structure Place where
  left : Bool
  zeros : Bool
  plus : Bool
  space : Bool
  alternate : Bool
  width : Nat
  precision : Option Nat

/-- A text made as wide as its place. -/
def Place.pad (p : Place) (zeros : Bool) (mark text : List Char) : List Char :=
  let missing := p.width - (mark.length + text.length)
  if p.left then mark ++ text ++ List.replicate missing ' '
  else if zeros then mark ++ List.replicate missing '0' ++ text
  else List.replicate missing ' ' ++ mark ++ text

/-- The digits of a number, of which there are at least as many as the place asks for. -/
def Place.number (p : Place) (mark digits : List Char) : List Char :=
  let missing := (p.precision.getD 1) - digits.length
  p.pad (p.zeros && p.precision.isNone) mark (List.replicate missing '0' ++ digits)

/-- The number at the start of an argument, and whether there is one and nothing else. A
quote stands for the first byte of what is behind it. -/
def argument (s : String) : Int × Bool :=
  match s.toList with
  | [] | ['\x22'] | ['\x27'] => (0, true)
  | '\x22' :: c :: _ | '\x27' :: c :: _ => (c.toNat, true)
  | cs =>
    let cs := cs.dropWhile isBlank
    match Evaluation.spelled? cs with
    | some n => (n, true)
    | none =>
      let fronts := (List.range cs.length).reverse.map cs.take
      ((fronts.findSome? Evaluation.spelled?).getD 0, false)

/-- An argument in its place, and whether it has the right form. -/
def Place.fill (p : Place) (conversion : Char) (s : String) : Option (List Char × Bool) :=
  let whole (base : Nat) (mark : List Char) : List Char × Bool :=
    let (n, ok) := argument s
    let m := if n < 0 && -(UInt64.size : Int) < n then n + UInt64.size else n
    let m := if 0 ≤ m && m < UInt64.size then m.toNat else UInt64.size - 1
    (p.number (if p.alternate && m ≠ 0 then mark else []) (Nat.toDigits base m),
      ok && n.natAbs < UInt64.size)
  match conversion with
  | 's' => some (p.pad false [] (s.toList.take (p.precision.getD s.length)), true)
  | 'c' => some (p.pad false [] [s.toList.headD '\x00'], true)
  | 'b' => some (p.pad false [] (unescape true (s.length + 1) s.toList).1, true)
  | 'd' | 'i' =>
    let (m, ok) := argument s
    let n := Evaluation.clamped m
    let mark := if n < 0 then ['-'] else if p.plus then ['+'] else if p.space then [' '] else []
    some (p.number mark (Nat.toDigits 10 n.natAbs), ok && n = m)
  | 'u' => some (whole 10 [])
  | 'o' => some (whole 8 ['0'])
  | 'x' => some (whole 16 ['0', 'x'])
  | 'X' =>
    let (text, ok) := whole 16 ['0', 'x']
    some (text.map Char.toUpper, ok)
  | _ => none

/-- The place behind a percent sign, its conversion, and what is left of the text and of
the arguments. -/
def place? (cs : List Char) (args : List String) :
    Option (Place × Char × List Char × List String) := do
  let flags := cs.takeWhile "-0+ #".toList.contains
  let cs := cs.drop flags.length
  let size (cs : List Char) (args : List String) : Int × List Char × List String :=
    match cs with
    | '*' :: cs => ((argument (args.headD "")).1, cs, args.tail)
    | cs =>
      let digits := cs.takeWhile Char.isDigit
      (Text.ofDigits digits, cs.drop digits.length, args)
  let (width, cs, args) := size cs args
  let (precision, cs, args) := match cs with
    | '.' :: cs =>
      let (n, cs, args) := size cs args
      (some n.toNat, cs, args)
    | cs => (none, cs, args)
  let c :: cs := cs | none
  return ({ left := flags.contains '-' || width < 0, zeros := flags.contains '0',
            plus := flags.contains '+', space := flags.contains ' ',
            alternate := flags.contains '#', width := width.natAbs, precision }, c, cs, args)

/-- How a round of printing ended. -/
structure Round where
  /-- The arguments that are left. -/
  args : List String
  status : Nat
  goesOn : Bool

/-- What a text prints in one round. -/
def format : Nat → List Char → List String → List Char × Round
  | 0, _, args => ([], ⟨args, 0, false⟩)
  | fuel + 1, cs, args =>
    let after (text : List Char) (ok : Bool) (rest : List Char) (args : List String) :
        List Char × Round :=
      let (more, round) := format fuel rest args
      (text ++ more, { round with status := max round.status (if ok then 0 else 1) })
    match cs with
    | [] => ([], ⟨args, 0, true⟩)
    | '%' :: '%' :: rest => after ['%'] true rest args
    | '%' :: rest =>
      match place? rest args with
      | none => ([], ⟨args, 2, false⟩)
      | some (place, conversion, rest, args) =>
        let arg := args.headD ""
        match place.fill conversion arg with
        | none => ([], ⟨args, 2, false⟩)
        | some (text, ok) =>
          if conversion = 'b' && (unescape true (arg.length + 1) arg.toList).2 then
            (text, ⟨args.tail, if ok then 0 else 1, false⟩)
          else after text ok rest args.tail
    | '\\' :: _ =>
      let escape := cs.take (1 + ((cs.drop 1).take 3).length)
      let size :=
        let run := ((cs.drop 1).take 3).takeWhile isOctal
        if run.isEmpty then min escape.length 2 else run.length + 1
      after (unescape false (size + 1) (cs.take size)).1 true (cs.drop size) args
    | c :: rest => after [c] true rest args

/-- What a text prints as long as arguments are left, and the status. -/
def formatAll (cs : List Char) : Nat → List String → List Char × Nat
  | 0, _ => ([], 0)
  | fuel + 1, args =>
    let (text, round) := format (cs.length + 1) cs args
    if !round.goesOn || round.args.isEmpty || round.args.length = args.length then
      (text, round.status)
    else
      let (more, status) := formatAll cs fuel round.args
      (text ++ more, max round.status status)

/-- What `printf` prints, and its status. -/
def printed (text : String) (args : List String) : String × Nat :=
  let (cs, status) := formatAll text.toList (args.length + 1) args
  (String.ofList cs, status)

end SettingsCompiler.Shell
