import SettingsCompiler.Shell.Filter

/-!
# A stream editor

A script of editing commands is run on each line of a text. A command may have addresses
that say on which lines it is run. The commands are in one list, and a jump is a place
in it : a block is passed over as a whole if its address does not hold.

The editor stands for `sed`, a formatter that a configuration may name. No theorem is about it.
-/

namespace SettingsCompiler.Shell

/-! ## Editing commands -/

/-- Which lines a command is run on. -/
inductive Address
  | line (n : Nat)
  | last
  | matching (r : Regex)
  /-- Lines from the first one on, a fixed number apart. -/
  | step (first step : Nat)
  /-- So many lines behind the first address. -/
  | after (n : Nat)

/-- A part of what replaces a match. -/
inductive Replacement
  | text (cs : List Char)
  | group (n : Nat)
  /-- Letters behind it are changed : all in upper or lower case, or the next one only. -/
  | letters (upper next : Bool)
  /-- Letters behind it are as they are. -/
  | lettersEnd

/-- How matches are replaced. -/
structure SubstituteFlags where
  /-- The occurrence from which on matches are replaced. -/
  nth : Nat
  /-- All matches are replaced from then on. -/
  every : Bool
  /-- The line is printed if a match was replaced. -/
  printed : Bool
  /-- Letters match in upper and lower case. -/
  anyCase : Bool

/-- What is replaced, and by what. -/
structure Substitution extends SubstituteFlags where
  pattern : Regex
  new : List Replacement

/-- What a command does. -/
inductive Edit
  | delete
  | deleteFirst
  | print
  | printFirst
  | number
  | next
  | append (more : Bool) (s : String)
  | insert (s : String)
  | change (s : String)
  | quit (silent : Bool) (status : Nat)
  | hold (more : Bool)
  | get (more : Bool)
  | exchange
  | joinNext
  | transform (source target : List Char)
  | substitute (s : Substitution)
  /-- The start of a block that ends at a place. -/
  | block
  | blockEnd
  | label (name : String)
  | jump (ifReplaced : Bool) (name : String)
  /-- The line is printed with escapes. -/
  | list

/-- A command with its addresses. -/
structure EditCommand where
  first : Option Address
  second : Option Address
  inverted : Bool
  edit : Edit

/-! ## Reading -/

/-- The text up to a mark, where a backslash in front of the mark goes away, and what
follows the mark. A mark between brackets on the same line does not count. -/
def upTo (mark : Char) : Nat → List Char → Option (List Char × List Char)
  | 0, _ => none
  | fuel + 1, cs =>
    let after (part : List Char) (rest : List Char) : Option (List Char × List Char) :=
      (upTo mark fuel rest).map fun (text, rest) => (part ++ text, rest)
    match cs with
    | [] => none
    | '\\' :: c :: rest => after (if c = mark then [c] else ['\\', c]) rest
    | c :: rest =>
      if c = mark then some ([], rest)
      else match if c = '[' then CharSet.ofBrackets? ['^'] rest else none with
        | some (_, behind) =>
          let inside := rest.take (rest.length - behind.length)
          if inside.contains '\n' then after [c] rest else after (c :: inside) behind
        | none => after [c] rest

/-- The text up to a mark, with no brackets in it. -/
def upToPlain (mark : Char) : List Char → Option (List Char × List Char)
  | [] => none
  | '\\' :: c :: rest => do
    let (text, rest) ← upToPlain mark rest
    return (if c = mark then c :: text else '\\' :: c :: text, rest)
  | c :: rest =>
    if c = mark then some ([], rest)
    else do
      let (text, rest) ← upToPlain mark rest
      return (c :: text, rest)

/-- The parts of a replacement. -/
def replacement : List Char → List Replacement
  | [] => []
  | '&' :: rest => .group 0 :: replacement rest
  | '\\' :: 'n' :: rest => .text ['\n'] :: replacement rest
  | '\\' :: 't' :: rest => .text ['\t'] :: replacement rest
  | '\\' :: 'r' :: rest => .text ['\r'] :: replacement rest
  | '\\' :: 'U' :: rest => .letters true false :: replacement rest
  | '\\' :: 'L' :: rest => .letters false false :: replacement rest
  | '\\' :: 'u' :: rest => .letters true true :: replacement rest
  | '\\' :: 'l' :: rest => .letters false true :: replacement rest
  | '\\' :: 'E' :: rest => .lettersEnd :: replacement rest
  | '\\' :: c :: rest =>
    (if c.isDigit then .group (c.toNat - '0'.toNat) else .text [c]) :: replacement rest
  | c :: rest => .text [c] :: replacement rest

/-- A number and what follows. -/
def leading? (cs : List Char) : Option (Nat × List Char) :=
  let digits := cs.takeWhile Char.isDigit
  if digits.isEmpty then none else some (Text.ofDigits digits, cs.drop digits.length)

/-- An address and what follows. -/
def address? (extended : Bool) (cs : List Char) : Option (Address × List Char) :=
  match cs with
  | '$' :: rest => some (.last, rest)
  | '+' :: rest => (leading? rest).map fun (n, rest) => (.after n, rest)
  | '/' :: rest => do
    let (text, rest) ← upTo '/' (rest.length + 1) rest
    return (.matching (← Regex.ofText? extended text), rest)
  | cs => (leading? cs).map fun (n, rest) =>
    match rest with
    | '~' :: more => match leading? more with
      | some (k, rest) => (.step n k, rest)
      | none => (.line n, rest)
    | rest => (.line n, rest)

/-- The text of an inserted line : behind blanks, or on the next line behind a backslash.
A line feed belongs to it behind a backslash. -/
def inserted : List Char → List Char × List Char
  | [] => ([], [])
  | '\\' :: c :: rest =>
    let (text, rest) := inserted rest
    (c :: text, rest)
  | '\n' :: rest => ([], rest)
  | c :: rest =>
    let (text, rest) := inserted rest
    (c :: text, rest)

/-- The start of an inserted text. -/
def insertedStart (cs : List Char) : List Char :=
  match cs.dropWhile isBlank with
  | '\\' :: rest => match rest.dropWhile isBlank with
    | '\n' :: rest => rest
    | _ => rest
  | rest => rest

/-- The flags of a substitution and what follows. -/
def substituteFlags (fs : SubstituteFlags) : List Char → SubstituteFlags × List Char
  | [] => (fs, [])
  | c :: cs =>
    if c = 'g' then substituteFlags { fs with every := true } cs
    else if c = 'p' then substituteFlags { fs with printed := true } cs
    else if c = 'i' || c = 'I' then substituteFlags { fs with anyCase := true } cs
    else if c.isDigit then
      let before := if fs.nth = 1 && c ≠ '0' then 0 else fs.nth
      substituteFlags { fs with nth := 10 * before + (c.toNat - '0'.toNat) } cs
    else (fs, c :: cs)

/-- What a command does and what follows it. -/
def edit? (extended : Bool) (c : Char) (cs : List Char) : Option (Edit × List Char) :=
  let word (cs : List Char) : String × List Char :=
    let cs := cs.dropWhile isBlank
    let name := cs.takeWhile fun d => d ≠ ';' && d ≠ '\n' && d ≠ '\x7d' && !isBlank d
    (String.ofList name, cs.drop name.length)
  let text (make : String → Edit) : Option (Edit × List Char) :=
    let (s, rest) := inserted (insertedStart cs)
    some (make (String.ofList s), rest)
  match c with
  | 'd' => some (.delete, cs)
  | 'D' => some (.deleteFirst, cs)
  | 'p' => some (.print, cs)
  | 'P' => some (.printFirst, cs)
  | '=' => some (.number, cs)
  | 'l' => some (.list, cs)
  | 'n' => some (.next, cs)
  | 'N' => some (.joinNext, cs)
  | 'h' => some (.hold false, cs)
  | 'H' => some (.hold true, cs)
  | 'g' => some (.get false, cs)
  | 'G' => some (.get true, cs)
  | 'x' => some (.exchange, cs)
  | '\x7b' => some (.block, cs)
  | '\x7d' => some (.blockEnd, cs)
  | 'a' => text (.append false)
  | 'i' => text .insert
  | 'c' => text .change
  | ':' =>
    let (name, rest) := word cs
    some (.label name, rest)
  | 'b' =>
    let (name, rest) := word cs
    some (.jump false name, rest)
  | 't' =>
    let (name, rest) := word cs
    some (.jump true name, rest)
  | 'q' | 'Q' =>
    let cs := cs.dropWhile isBlank
    match leading? cs with
    | some (n, rest) => some (.quit (c = 'Q') n, rest)
    | none => some (.quit (c = 'Q') 0, cs)
  | 'y' => match cs with
    | mark :: rest => do
      let (source, rest) ← upToPlain mark rest
      let (target, rest) ← upToPlain mark rest
      let plain (cs : List Char) : List Char := (unescape false (cs.length + 1) cs).1
      if (plain source).length = (plain target).length then
        return (.transform (plain source) (plain target), rest)
      else none
    | [] => none
  | 's' => match cs with
    | mark :: rest => do
      let (text, rest) ← upTo mark (rest.length + 1) rest
      let (new, rest) ← upToPlain mark rest
      let (flags, rest) := substituteFlags ⟨1, false, false, false⟩ rest
      let pattern ← Regex.ofText? extended text
      return (.substitute ⟨flags, pattern, replacement new⟩, rest)
    | [] => none
  | _ => none

/-- The commands of an editing script. -/
def editCommands? (extended : Bool) : Nat → List Char → Option (List EditCommand)
  | 0, _ => none
  | fuel + 1, cs =>
    match cs.dropWhile fun c => isBlank c || c = '\n' || c = ';' with
    | [] => some []
    | '#' :: rest => editCommands? extended fuel (rest.dropWhile (· ≠ '\n'))
    | cs => do
      let (first, cs) := match address? extended cs with
        | some (a, rest) => (some a, rest)
        | none => (none, cs)
      let (second, cs) ← match first, cs.dropWhile isBlank with
        | some _, ',' :: rest => do
          let (a, rest) ← address? extended (rest.dropWhile isBlank)
          pure (some a, rest)
        | _, rest => pure (none, rest)
      let cs := cs.dropWhile isBlank
      let (inverted, cs) := match cs with
        | '!' :: rest => (true, rest.dropWhile isBlank)
        | cs => (false, cs)
      let c :: rest := cs | none
      let (edit, rest) ← edit? extended c rest
      let rest := rest.dropWhile isBlank
      let separated := match edit, rest with
        | .block, _ | .append .., _ | .insert _, _ | .change _, _ => true
        | _, [] => true
        | _, d :: _ => d = ';' || d = '\n' || d = '\x7d' || d = '#'
      if !separated then none
      else return ⟨first, second, inverted, edit⟩ :: (← editCommands? extended fuel rest)

/-- Whether every block that is opened is closed, and no other. -/
def isClosed (cs : List EditCommand) : Bool :=
  cs.foldl (fun (depth : Int) c => match c.edit with
    | .block => if depth < 0 then depth else depth + 1
    | .blockEnd => depth - 1
    | _ => depth) 0 = 0

/-- A label that is jumped to and that is nowhere. -/
def missingLabel? (cs : List EditCommand) : Option String :=
  let labels := cs.filterMap fun c => match c.edit with
    | .label name => some name
    | _ => none
  cs.findSome? fun c => match c.edit with
    | .jump _ name => if name = "" || labels.contains name then none else some name
    | _ => none

/-! ## Running -/

/-- A text under edit : the line and its number, whether it ends in a line feed, the
lines to come, what is held, what was printed, what is printed behind the line, whether
something was replaced since the line began, the ranges that are open with the number of
the line where they began, and how the run ends. -/
structure Editing where
  line : List Char
  number : Nat
  ended : Bool
  rest : List String
  held : List Char
  printed : List String
  after : List String
  replaced : Bool
  ranges : List (Nat × Nat)
  status : Option Nat
  silent : Bool

namespace Editing

/-- Something more that is printed. -/
def say (e : Editing) (s : String) : Editing := { e with printed := s :: e.printed }

/-- The line is printed. -/
def sayLine (e : Editing) (cs : List Char) : Editing :=
  e.say (String.ofList (if e.ended then cs ++ ['\n'] else cs))

/-- What was to be printed behind the line. -/
def flush (e : Editing) : Editing :=
  { e with printed := e.after.reverse ++ e.printed, after := [] }

/-- Whether an address holds. -/
def holds (e : Editing) : Address → Bool
  | .line n => e.number == n
  | .last => e.rest.isEmpty
  | .matching r => (r.search? ⟨e.line.toArray, false⟩ 0).isSome
  | .step first step =>
    if step = 0 then e.number == first
    else first ≤ e.number && (e.number - first) % step == 0
  | .after _ => false

/-- Whether the command at a place is run on this line, and the ranges that are open. -/
def selects (e : Editing) (place : Nat) (c : EditCommand) : Bool × Editing :=
  match c.first, c.second with
  | none, _ => (true, e)
  | some a, none => (e.holds a, e)
  | some a, some b =>
    let close (e : Editing) : Editing :=
      { e with ranges := e.ranges.filter fun r => r.1 ≠ place }
    match e.ranges.lookup place with
    | some began =>
      let passed : Bool := match b with
        | .line n => n < e.number
        | _ => false
      let last : Bool := match b with
        | .line n => n ≤ e.number
        | .after n => began + n ≤ e.number
        | b => e.holds b
      if passed then (e.holds a, close e) else (true, if last then close e else e)
    | none =>
      let starts := match a with
        | .line n => e.number == n
        | a => e.holds a
      let single : Bool := match b with
        | .line n => n ≤ e.number
        | .after n => n == 0
        | _ => false
      if !starts then (false, e)
      else if single then (true, e)
      else (true, { e with ranges := (place, e.number) :: e.ranges })

/-- A letter in upper or in lower case. -/
def inCase (upper : Bool) (c : Char) : Char := if upper then c.toUpper else c.toLower

/-- A text with its letters changed : all of them, and the first one once more. -/
def changed (all next : Option Bool) (cs : List Char) : List Char :=
  let cs := match all with
    | some upper => cs.map (inCase upper)
    | none => cs
  match next, cs with
  | some upper, c :: rest => inCase upper c :: rest
  | _, cs => cs

/-- What replaces a match, where letters are changed as the parts before say. -/
def replaceFrom (text : Array Char) (start : Nat) (p : Regex.Place) (all next : Option Bool) :
    List Replacement → List Char
  | [] => []
  | .letters upper true :: rest => replaceFrom text start p all (some upper) rest
  | .letters upper false :: rest => replaceFrom text start p (some upper) none rest
  | .lettersEnd :: rest => replaceFrom text start p none none rest
  | .text cs :: rest => after cs rest
  | .group 0 :: rest => after (text.extract start p.pos).toList rest
  | .group n :: rest => after (match p.groups.lookup n with
      | some (a, b) => (text.extract a b).toList
      | none => []) rest
where
  /-- A part and those behind it. -/
  after (cs : List Char) (rest : List Replacement) : List Char :=
    changed all next cs ++ replaceFrom text start p all (if cs.isEmpty then next else none) rest

/-- What replaces a match. -/
def replace (new : List Replacement) (text : Array Char) (start : Nat) (p : Regex.Place) :
    List Char := replaceFrom text start p none none new

/-- A text with matches replaced from a position on, and whether there were any ; `nth`
counts the matches up to the first one that is replaced, and no empty match is replaced
where the last match ended. -/
def substitute (c : Substitution) (s : Regex.Subject) :
    Nat → Nat → Nat → Option Nat → List Char × Bool
  | 0, _, pos, _ => ((s.text.extract pos s.text.size).toList, false)
  | fuel + 1, nth, pos, lastEnd =>
    match if pos ≤ s.text.size then c.pattern.search? s pos else none with
    | none => ((s.text.extract pos s.text.size).toList, false)
    | some (start, p) =>
      let before := (s.text.extract pos start).toList
      if p.pos = start && lastEnd = some start then
        let here := (s.text.extract start (start + 1)).toList
        let (rest, found) := substitute c s fuel nth (start + 1) none
        if start < s.text.size then (before ++ here ++ rest, found) else (before, false)
      else if 1 < nth then
        let step := if p.pos = start then start + 1 else p.pos
        let here := (s.text.extract start step).toList
        let (rest, found) := substitute c s fuel (nth - 1) step (some p.pos)
        (before ++ here ++ rest, found)
      else
        let text := before ++ replace c.new s.text start p
        if !c.every then (text ++ (s.text.extract p.pos s.text.size).toList, true)
        else if p.pos = start then
          let here := (s.text.extract start (start + 1)).toList
          if start < s.text.size then
            (text ++ here ++ (substitute c s fuel 1 (start + 1) none).1, true)
          else (text, true)
        else (text ++ (substitute c s fuel 1 p.pos (some p.pos)).1, true)

/-- The place behind the end of the block that starts at a place. -/
def blockEnd (cs : Array EditCommand) : Nat → Nat → Nat → Nat
  | 0, place, _ => place
  | fuel + 1, place, depth =>
    match cs[place]? with
    | none => place
    | some c => match c.edit with
      | .block => blockEnd cs fuel (place + 1) (depth + 1)
      | .blockEnd => if depth ≤ 1 then place + 1 else blockEnd cs fuel (place + 1) (depth - 1)
      | _ => blockEnd cs fuel (place + 1) depth

/-- The place of a label, or the end. -/
def labelPlace (cs : Array EditCommand) (name : String) : Nat :=
  if name = "" then cs.size
  else (cs.findIdx? fun c => match c.edit with
    | .label n => n == name
    | _ => false).getD cs.size

/-- Take the next line. -/
def advance (e : Editing) (join : Bool) : Option Editing :=
  match e.rest with
  | [] => none
  | l :: rest =>
    let body := (withoutEnd l).toList
    some { e with
      line := if join then e.line ++ '\n' :: body else body
      number := e.number + 1
      ended := l.endsWith "\n"
      rest }

/-- A character as it is listed. -/
def listed (c : Char) : List Char :=
  let named := [('\x07', 'a'), ('\x08', 'b'), ('\x0c', 'f'), ('\n', 'n'), ('\r', 'r'), ('\t', 't'),
    ('\x0b', 'v'), ('\\', '\\')]
  match named.lookup c with
  | some letter => ['\\', letter]
  | none =>
    if ' ' ≤ c && c ≤ '~' then [c]
    else '\\' :: [c.toNat / 64, c.toNat / 8 % 8, c.toNat % 8].map Nat.digitChar

/-- Run the commands from a place on. The flag says whether the line is printed at the
end. -/
def run (quiet : Bool) (cs : Array EditCommand) : Nat → Nat → Editing → Bool × Editing
  | 0, _, e => (true, { e with status := some 1 })
  | fuel + 1, place, e =>
    match cs[place]? with
    | none => (true, e)
    | some c =>
      let (holds, e) := e.selects place c
      if holds == c.inverted then
        match c.edit with
        | .block => run quiet cs fuel (blockEnd cs (cs.size + 1) place 0) e
        | _ => run quiet cs fuel (place + 1) e
      else
        let go (e : Editing) : Bool × Editing := run quiet cs fuel (place + 1) e
        match c.edit with
        | .delete => (false, e)
        | .deleteFirst =>
          if e.line.contains '\n' then
            let left := (e.line.dropWhile (· ≠ '\n')).tail
            run quiet cs fuel 0 { e with line := left }
          else (false, e)
        | .print => go (e.sayLine e.line)
        | .printFirst => go (e.say (String.ofList (e.line.takeWhile (· ≠ '\n') ++ ['\n'])))
        | .number => go (e.say (toString e.number ++ "\n"))
        | .list => go (e.say (String.ofList (e.line.flatMap listed ++ ['$', '\n'])))
        | .next =>
          match e.advance false with
          | none => (!quiet, { e with status := e.status.orElse fun _ => some 0 })
          | some n =>
            let shown := (if quiet then e else e.sayLine e.line).flush
            go { n with printed := shown.printed, after := [] }
        | .joinNext =>
          match e.advance true with
          | none => (true, { e with status := some 0 })
          | some n => go { n with printed := e.flush.printed, after := [] }
        | .append _ s => go { e with after := e.after ++ [s ++ "\n"] }
        | .insert s => go (e.say (s ++ "\n"))
        | .change s =>
          let inRange := c.second.isSome && (e.ranges.lookup place).isSome && !c.inverted
          (false, if inRange then e else e.say (s ++ "\n"))
        | .quit silent status => (!silent, { e with status := some status })
        | .hold more => go { e with held := if more then e.held ++ '\n' :: e.line else e.line }
        | .get more => go { e with line := if more then e.line ++ '\n' :: e.held else e.held }
        | .exchange => go { e with line := e.held, held := e.line }
        | .transform source target =>
          let change (d : Char) : Char := match source.idxOf? d with
            | some n => (target[n]?).getD d
            | none => d
          go { e with line := e.line.map change }
        | .substitute s =>
          let (line, found) :=
            substitute s ⟨e.line.toArray, s.anyCase⟩ (e.line.length + 2) s.nth 0 none
          if found then
            let e := { e with line, replaced := true }
            go (if s.printed then e.sayLine line else e)
          else go e
        | .block | .blockEnd | .label _ => go e
        | .jump ifReplaced name =>
          if ifReplaced && !e.replaced then go e
          else run quiet cs fuel (labelPlace cs name)
            { e with replaced := if ifReplaced then false else e.replaced }

/-- Run the commands on every line. -/
def runAll (quiet : Bool) (cs : Array EditCommand) (steps : Nat) : Nat → Editing → Editing
  | 0, e => e
  | fuel + 1, e =>
    if e.status.isSome then e
    else match e.advance false with
      | none => e
      | some e =>
        let (shown, e) := run quiet cs steps 0 { e with replaced := false }
        let e := if shown && !quiet then e.sayLine e.line else e
        runAll quiet cs steps fuel e.flush

/-- How many commands may be run on one line. -/
def stepsPerLine : Nat := 100000

/-- An edited text and the status. -/
def text (quiet : Bool) (cs : List EditCommand) (s : String) : String × Nat :=
  let lines := spans s
  let e := runAll quiet cs.toArray stepsPerLine (lines.length + 1)
    ⟨[], 0, true, lines, [], [], [], false, [], none, false⟩
  let e := e.flush
  (String.join e.printed.reverse, e.status.getD 0)

end Editing

/-! ## The utility -/

/-- The arguments of `sed` with the long and the attached forms of options taken apart. -/
def editorArgs : List String → List String
  | [] => []
  | "--quiet" :: rest | "--silent" :: rest => "-n" :: editorArgs rest
  | "--regexp-extended" :: rest => "-E" :: editorArgs rest
  | "--in-place" :: rest => "-i" :: editorArgs rest
  | "--" :: rest => "--" :: rest
  | arg :: rest => match arg.toList with
    | '-' :: 'i' :: suffix =>
      if suffix.isEmpty then arg :: editorArgs rest
      else "-i" :: "-S" :: String.ofList suffix :: editorArgs rest
    | _ => arg :: editorArgs rest

/-- `sed`. -/
def edited (c : Call) : Reply :=
  match options? "nErisuz" "eSf" (editorArgs c.args) with
  | none => c.fail 1 "invalid option"
  | some (os, operands) =>
    let fromFile := (Options.value? os 'f').bind fun f => (c.read f).toOption
    let given := ((os.filter fun o => o.1 = 'e').map Prod.snd) ++ fromFile.toList
    let (scripts, files) := match given, operands with
      | [], s :: rest => ([s], rest)
      | ss, rest => (ss, rest)
    let script := (Text.joinWith "\n" scripts).toList
    let extended := Options.has os 'E' || Options.has os 'r'
    let quiet := Options.has os 'n'
    if scripts.isEmpty then c.fail 1 "no script specified"
    else match (editCommands? extended (script.length + 1) script).filter isClosed with
      | none => c.fail 1 "-e expression #1, char 0: invalid command"
      | some cs =>
        if let some name := missingLabel? cs then
          c.fail 4 ("can't find label for jump to \x60" ++ name ++ "'")
        else if Options.has os 'i' then
          files.foldl (fun r file =>
            match r.files.read (c.path file) with
            | .ok s =>
              let (out, status) := Editing.text quiet cs s
              let kept := match Options.value? os 'S' with
                | some suffix => r.files.write (c.path (file ++ suffix)) s
                | none => .ok r.files
              match kept.bind fun w => w.write (c.path file) out with
              | .ok w => { r with files := w, status := if status = 0 then r.status else status }
              | .error _ => { r with status := 4 }
            | .error e => { r with
                status := 2
                complaints := r.complaints ++ "sed: can't read " ++ file ++ ": " ++ e.reason ++
                  "\n" }) (c.reply 0 "")
        else
          let r := c.overFiles files fun _ s => s
          let (out, status) := Editing.text quiet cs r.printed
          { r with printed := out, status := if r.status = 0 then status else 2 }

end SettingsCompiler.Shell
