import SettingsCompiler.Shell.Utility
import SettingsCompiler.Shell.Format
import SettingsCompiler.Shell.Regex

/-!
# Utilities on lines

Utilities that read lines and print some of them or what they say.

They stand for `head`, `sort`, `tr`, `grep` and others of these names, which a formatter may be
or run. No theorem is about them.
-/

namespace SettingsCompiler.Shell

/-! ## Parts of a text -/

/-- The lines of a text, each with the line feed that ends it. -/
def spans (s : String) : List String := (Text.lineSpans s.toList).map String.ofList

/-- A line without the line feed that ends it. -/
def withoutEnd (line : String) : String := String.ofList (line.toList.takeWhile (· ≠ '\n'))

/-- A number with a sign in front. -/
def signed? (s : String) : Option (Char × Nat) :=
  match s.toList with
  | '+' :: cs => (Text.digits? 10 cs).map fun n => ('+', n)
  | '-' :: cs => (Text.digits? 10 cs).map fun n => ('-', n)
  | cs => (Text.digits? 10 cs).map fun n => (' ', n)

/-- Arguments with a count alone, such as `-3`, written as an option. -/
def withCount : List String → List String
  | arg :: rest =>
    match arg.toList with
    | '-' :: c :: cs => if (c :: cs).all Char.isDigit then "-n" :: String.ofList (c :: cs) :: rest
      else arg :: rest
    | '+' :: c :: cs => if (c :: cs).all Char.isDigit then "-n" :: arg :: rest else arg :: rest
    | _ => arg :: rest
  | [] => []

/-- The first or the last parts of a text ; a sign in front of the number counts from the
other end. -/
def portion {α : Type} (first : Bool) (sign : Char) (n : Nat) (parts : List α) : List α :=
  let fromEnd := parts.length - n
  if first then parts.take (if sign = '-' then fromEnd else n)
  else parts.drop (if sign = '+' then n - 1 else fromEnd)

/-- `head` and `tail`. -/
def ends (first : Bool) (c : Call) : Reply :=
  match options? "q" "nc" (withCount c.args) with
  | none => c.fail 1 "invalid option"
  | some (os, files) =>
    let byChars := (Options.value? os 'c').isSome
    let count := (Options.value? os 'c').orElse fun _ => Options.value? os 'n'
    match signed? (count.getD "10") with
    | none => c.fail 1 ("invalid number of lines: '" ++ count.getD "" ++ "'")
    | some (sign, n) =>
      let part (s : String) : String :=
        if byChars then String.ofList (portion first sign n s.toList)
        else String.join (portion first sign n (spans s))
      let several := 1 < files.length && !Options.has os 'q'
      let r := c.overFiles files fun file s =>
        (if several then
          (if files.head? = some file then "" else "\n") ++ "==> " ++ file ++ " <==\n"
        else "") ++ part s
      if files.isEmpty && first && !byChars then
        { r with input := String.join ((spans c.input).drop (portion true sign n (spans
          c.input)).length) }
      else r

/-- `wc`. -/
def counts (c : Call) : Reply :=
  match options? "lwcm" "" c.args with
  | none => c.fail 1 "invalid option"
  | some (os, files) =>
    let all := os.isEmpty
    let numbers (s : String) : List Nat :=
      (if all || Options.has os 'l' then [s.toList.count '\n'] else []) ++
      (if all || Options.has os 'w' then
        [((s.toList.splitOnP Char.isWhitespace).filter (!·.isEmpty)).length] else []) ++
      (if Options.has os 'm' then [s.length] else []) ++
      (if all || Options.has os 'c' then [s.length] else [])
    let texts := (c.inputs files).filterMap fun (_, t) => t.toOption
    let total := texts.foldl (fun n s => n + s.length) 0
    let width :=
      if (numbers "").length = 1 && files.length ≤ 1 then 1
      else if files.isEmpty then 7 else (toString total).length
    let row (ns : List Nat) (name : String) : String :=
      let cell (n : Nat) : String :=
        String.ofList (List.replicate (width - (toString n).length) ' ') ++ toString n
      Text.joinWith " " (ns.map cell) ++ (if name = "" then "" else " " ++ name) ++ "\n"
    let r := c.overFiles files fun file s => row (numbers s) (if files.isEmpty then "" else file)
    if files.length ≤ 1 then r
    else
      let sums := texts.foldl (fun ns s => (ns.zip (numbers s)).map fun (a, b) => a + b)
        ((numbers "").map fun _ => 0)
      { r with printed := r.printed ++ row sums "total" }

/-! ## Order -/

/-- The number in front of a line, in parts of a million. -/
def leadingNumber (cs : List Char) : Int :=
  let cs := cs.dropWhile isBlank
  let (negative, cs) := match cs with
    | '-' :: cs => (true, cs)
    | cs => (false, cs)
  let whole := cs.takeWhile Char.isDigit
  let fraction := match cs.drop whole.length with
    | '.' :: cs => (cs.takeWhile Char.isDigit).take 6
    | _ => []
  let n : Int := Text.ofDigits (whole ++ fraction ++ List.replicate (6 - fraction.length) '0')
  if negative then -n else n

/-- The fields of a line, each with the blanks in front of it unless a mark separates
them. -/
def fields (mark : Option Char) (line : List Char) : List (List Char) :=
  match mark with
  | some c => line.splitOn c
  | none => (line.foldr (fun c acc => match acc with
      | (d :: ds) :: rest =>
        if isBlank c || !isBlank d then (c :: d :: ds) :: rest else [c] :: (d :: ds) :: rest
      | _ => [[c]]) [])

/-- The part of a line from one field to another, without the characters that the extent
passes over in front. -/
def key (mark : Option Char) (extent : String) (line : List Char) : List Char :=
  let numbers := (extent.toList.splitOn ',').map fun cs =>
    Text.ofDigits (cs.takeWhile Char.isDigit)
  let all := fields mark line
  let part := all.drop (numbers.headD 1 - 1)
  let part := match numbers.tail with
    | [] => part
    | last :: _ => part.take (last + 1 - numbers.headD 1)
  let passed := match ((extent.toList.takeWhile (· ≠ ',')).dropWhile Char.isDigit) with
    | '.' :: cs => Text.ofDigits (cs.takeWhile Char.isDigit) - 1
    | _ => 0
  match mark with
  | some c => (List.intercalate [c] part).drop passed
  | none => part.flatten.drop passed

/-- `sort`. -/
def sorted (c : Call) : Reply :=
  match options? "rnufbcC" "kto" c.args with
  | none => c.fail 2 "invalid option"
  | some (os, files) =>
    match c.allText files with
    | .error r => r
    | .ok text =>
      let extent := Options.value? os 'k'
      let letter (f : Char) : Bool := Options.has os f || (extent.getD "").contains f
      let mark := (Options.value? os 't').bind fun s => s.toList.head?
      let keyed (l : String) : List Char :=
        let cs := match extent with
          | some e => key mark e l.toList
          | none => l.toList
        let cs := if letter 'b' then cs.dropWhile isBlank else cs
        if letter 'f' then cs.map Char.toUpper else cs
      let order (a b : String) : Ordering :=
        let byKey := if letter 'n' then compare (leadingNumber (keyed a)) (leadingNumber (keyed b))
          else compare (String.ofList (keyed a)) (String.ofList (keyed b))
        if letter 'r' then byKey.swap else byKey
      let last (a b : String) : Ordering :=
        if Options.has os 'u' then .eq
        else if Options.has os 'r' then (compare a b).swap else compare a b
      let before := Text.lines text
      let lines := before.mergeSort fun a b => ((order a b).then (last a b)).isLE
      let lines := if Options.has os 'u' then
          lines.foldr (fun l acc => match acc with
            | m :: rest => if order l m == .eq then l :: rest else l :: m :: rest
            | [] => [l]) []
        else lines
      let out := Text.unlines lines
      if Options.has os 'c' || Options.has os 'C' then
        { c.reply (if lines = before then 0 else 1) "" with input := "" }
      else match Options.value? os 'o' with
      | none => { c.reply 0 out with input := "" }
      | some file => match c.files.write (c.path file) out with
        | .ok files => { c.reply 0 "" with files, input := "" }
        | .error e => c.fail 2 ("open failed: " ++ file ++ ": " ++ e.reason)

/-- Runs of lines that count as the same : how many, and the first of them. -/
def runs (same : String → String → Bool) (lines : List String) : List (Nat × String) :=
  lines.foldr (fun l acc => match acc with
    | (n, m) :: rest => if same l m then (n + 1, l) :: rest else (1, l) :: (n, m) :: rest
    | [] => [(1, l)]) []

/-- `uniq`. -/
def distinct (c : Call) : Reply :=
  match options? "cdui" "" c.args with
  | none => c.fail 1 "invalid option"
  | some (os, files) =>
    match c.allText (files.take 1) with
    | .error r => { r with status := 1 }
    | .ok text =>
      let folded (s : String) : String := if Options.has os 'i' then s.toLower else s
      let kept := (runs (fun a b => folded a == folded b) (Text.lines text)).filter fun (n, _) =>
        (!Options.has os 'd' || 1 < n) && (!Options.has os 'u' || n == 1)
      let row : Nat × String → String := fun (n, l) =>
        if Options.has os 'c' then
          String.ofList (List.replicate (7 - (toString n).length) ' ') ++ toString n ++ " " ++ l
        else l
      { c.reply 0 (Text.unlines (kept.map row)) with input := "" }

/-! ## Characters and fields -/

/-- The characters that a set of `tr` lists, in order. -/
def listed : Nat → List Char → List Char
  | 0, _ => []
  | fuel + 1, cs =>
    match cs with
    | [] => []
    | '[' :: ':' :: rest =>
      let name := rest.takeWhile (· ≠ ':')
      match CharSet.named? name with
      | some ranges =>
        ((List.range 128).map Char.ofNat).filter (CharSet.contains ⟨false, ranges⟩) ++
          listed fuel (rest.drop (name.length + 2))
      | none => '[' :: listed fuel (':' :: rest)
    | a :: '-' :: b :: rest =>
      ((List.range (b.toNat + 1 - a.toNat)).map fun n => Char.ofNat (a.toNat + n)) ++
        listed fuel rest
    | a :: rest => a :: listed fuel rest

/-- `tr`. -/
def translated (c : Call) : Reply :=
  match options? "dscC" "" c.args with
  | none => c.fail 1 "invalid option"
  | some (os, sets) =>
    let set (s : String) : List Char :=
      let cs := (unescape false (s.length + 1) s.toList).1
      listed (cs.length + 1) cs
    let first := set (sets.headD "")
    let second := set ((sets.drop 1).headD "")
    let inverted := Options.has os 'c' || Options.has os 'C'
    let chosen (d : Char) : Bool := first.contains d != inverted
    let change (d : Char) : Char :=
      if !chosen d then d
      else if inverted then second.getLast?.getD d
      else match first.idxOf? d with
        | some n => (second[n]?).getD (second.getLast?.getD d)
        | none => d
    let deletes := Options.has os 'd'
    let text := c.input.toList
    let text := if deletes then text.filter (!chosen ·)
      else if 1 < sets.length then text.map change else text
    let squeezed (d : Char) : Bool :=
      if 1 < sets.length then second.contains d else chosen d
    let text := if Options.has os 's' then
        text.foldr (fun d acc => if acc.head? = some d && squeezed d then acc else d :: acc) []
      else text
    if sets.isEmpty then c.fail 1 "missing operand"
    else if sets.length < 2 && !deletes && !Options.has os 's' then
      c.fail 1 ("missing operand after '" ++ sets.headD "" ++ "'")
    else { c.reply 0 (String.ofList text) with input := "" }

/-- Whether a place, counted from one, is in a list of places and ranges. -/
def inRanges (list : String) (n : Nat) : Bool :=
  (list.toList.splitOn ',').any fun range =>
    match range.splitOn '-' with
    | [a] => Text.ofDigits a == n
    | a :: b :: _ =>
      (a.isEmpty || Text.ofDigits a ≤ n) && (b.isEmpty || n ≤ Text.ofDigits b)
    | [] => false

/-- `cut`. -/
def cutLines (c : Call) : Reply :=
  match options? "s" "dfcb" c.args with
  | none => c.fail 1 "invalid option"
  | some (os, files) =>
    let mark := ((Options.value? os 'd').bind fun s => s.toList.head?).getD '\t'
    let pick {α : Type} (list : String) (parts : List α) : List α :=
      (parts.zip (List.range parts.length)).filterMap fun (p, n) =>
        if inRanges list (n + 1) then some p else none
    let chars := (Options.value? os 'c').orElse fun _ => Options.value? os 'b'
    let line (l : String) : Option String :=
      match chars, Options.value? os 'f' with
      | some list, _ => some (String.ofList (pick list l.toList))
      | none, some list =>
        if l.contains mark then
          some (String.ofList (List.intercalate [mark] (pick list (l.toList.splitOn mark))))
        else if Options.has os 's' then none else some l
      | none, none => some l
    if chars.isNone && (Options.value? os 'f').isNone then
      c.fail 1 "you must specify a list of bytes, characters, or fields"
    else c.overFiles files fun _ s => Text.unlines ((Text.lines s).filterMap line)

/-- `rev` and `tac`. -/
def reversed (byLine : Bool) (c : Call) : Reply :=
  c.overFiles c.args fun _ s =>
    if byLine then String.join (spans s).reverse
    else String.join ((spans s).map fun l =>
      let body := (withoutEnd l).toList
      String.ofList (body.reverse ++ l.toList.drop body.length))

/-! ## Search -/

/-- Quote every character of a text. -/
def literal (cs : List Char) : Regex :=
  cs.foldr (fun c r => .both (.char c) r) .empty

/-- `grep`. -/
def searched (c : Call) : Reply :=
  match options? "qvcinEFGxlohsHw" "em" c.args with
  | none => c.fail 2 "invalid option"
  | some (os, operands) =>
    let given := (os.filter fun o => o.1 = 'e').map Prod.snd
    let (patterns, files) := match given, operands with
      | [], p :: rest => ([p], rest)
      | ps, rest => (ps, rest)
    let extended := Options.has os 'E'
    let read (cs : List Char) : Option Regex :=
      let r? := if Options.has os 'F' then some (literal cs) else Regex.ofText? extended cs
      r?.map fun r =>
        let r := if Options.has os 'w' then .both .wordEdge (.both r .wordEdge) else r
        if Options.has os 'x' then .both .textStart (.both (.group 100 r) .textEnd) else r
    let all := patterns.flatMap fun p => p.toList.splitOn '\n'
    match all.mapM read with
    | none => c.fail 2 "Invalid regular expression"
    | some [] => c.fail 2 "missing pattern"
    | some (r :: rs) =>
      let r := rs.foldl Regex.either r
      let subject (l : String) : Regex.Subject := ⟨l.toList.toArray, Options.has os 'i'⟩
      let inverted := Options.has os 'v'
      let matched (l : String) : Bool := (r.search? (subject l) 0).isSome != inverted
      let named := (1 < files.length || Options.has os 'H') && !Options.has os 'h'
      let hits (s : String) : List (Nat × String) :=
        let ls := Text.lines s
        let hits := ((List.range ls.length).zip ls).filter fun (_, l) => matched l
        match (Options.value? os 'm').bind fun m => m.toNat? with
        | some m => hits.take m
        | none => hits
      let parts (l : String) : List String :=
        let s := subject l
        ((List.range (l.length + 1)).foldl (fun (acc : Nat × List String) n =>
          if n < acc.1 then acc
          else match Regex.furthest? (r.ends s ⟨n, []⟩) with
            | some p => if n < p.pos then
                (p.pos, acc.2 ++ [String.ofList (s.text.extract n p.pos).toList]) else acc
            | none => acc) (0, [])).2
      let shown (file s : String) : String :=
        let front (n : Nat) : String := (if named then file ++ ":" else "") ++
          (if Options.has os 'n' then toString (n + 1) ++ ":" else "")
        if Options.has os 'q' then ""
        else if Options.has os 'l' then if (hits s).isEmpty then "" else file ++ "\n"
        else if Options.has os 'c' then
          (if named then file ++ ":" else "") ++ toString (hits s).length ++ "\n"
        else if Options.has os 'o' then
          Text.unlines ((hits s).flatMap fun (n, l) => (parts l).map (front n ++ ·))
        else Text.unlines ((hits s).map fun (n, l) => front n ++ l)
      let reply := c.overFiles files shown
      let found := (c.inputs files).any fun (_, t) => match t with
        | .ok s => !(hits s).isEmpty
        | .error _ => false
      if reply.status ≠ 0 && !(found && Options.has os 'q') then { reply with status := 2 }
      else { reply with status := if found then 0 else 1 }

/-! ## Numbers and names -/

/-- `seq`. -/
def counted (c : Call) : Reply :=
  let front := c.args.takeWhile fun a => (Evaluation.number? a.toList).isNone
  match options? "w" "s" front with
  | none => c.fail 1 "invalid option"
  | some (os, operands) =>
    let numbers := (operands ++ c.args.drop front.length).map fun s =>
      Evaluation.number? s.toList
    let separator := (Options.value? os 's').getD "\n"
    let run (a step b : Int) : Reply :=
      let n := if step = 0 then 0
        else if (0 < step && b < a) || (step < 0 && a < b) then 0
        else ((b - a).tdiv step).toNat + 1
      let texts := (List.range n).map fun k : Nat => toString (a + (k : Int) * step)
      let wide := texts.foldl (fun m t => max m t.length) 0
      let texts := if Options.has os 'w' then
          texts.map fun t => String.ofList (List.replicate (wide - t.length) '0') ++ t
        else texts
      c.reply 0 (if texts.isEmpty then "" else Text.joinWith separator texts ++ "\n")
    match numbers with
    | [some b] => run 1 1 b
    | [some a, some b] => run a 1 b
    | [some a, some step, some b] => run a step b
    | _ => c.fail 1 "invalid argument"

/-- The last part of a path. -/
def lastPart (path : String) : String :=
  let cs := path.toList.reverse.dropWhile (· = '/')
  if cs.isEmpty then (if path = "" then "" else "/")
  else String.ofList (cs.takeWhile (· ≠ '/')).reverse

/-- The directory of a path, as `dirname` shows it. -/
def directoryPart (path : String) : String :=
  let cs := path.toList.reverse.dropWhile (· = '/')
  let above := cs.dropWhile (· ≠ '/')
  let trimmed := above.dropWhile (· = '/')
  if !trimmed.isEmpty then String.ofList trimmed.reverse
  else if above.isEmpty && !(cs.isEmpty && path ≠ "") then "." else "/"

/-- `basename` and `dirname`. -/
def pathPart (last : Bool) (c : Call) : Reply :=
  match c.args with
  | [path] => c.reply 0 ((if last then lastPart path else directoryPart path) ++ "\n")
  | [path, suffix] =>
    let name := lastPart path
    if last then
      c.reply 0 ((if name.endsWith suffix && name ≠ suffix then
        String.ofList (name.toList.take (name.length - suffix.length)) else name) ++ "\n")
    else c.reply 0 (directoryPart path ++ "\n" ++ directoryPart suffix ++ "\n")
  | _ => c.fail 1 "missing operand"

end SettingsCompiler.Shell
