import SettingsCompiler.Shell.Word

/-!
# Commands of the shell itself

The commands that a script finds before any utility, as far as they run no other command.

They stand for the builtin commands of `sh`, a formatter that a configuration may name. No theorem
is about them.
-/

namespace SettingsCompiler.Shell

/-- Finish a command with a status. -/
def finish (status : Nat) : Run Unit := modify fun s => { s with status }

/-- Finish a command with a complaint. -/
def refuse (status : Nat) (message : String) : Run Unit :=
  modify fun s => { s.complain message with status }

/-- End the script with a complaint. -/
def abort (message : String) : Run Unit := do
  refuse 2 message
  throw .exit

/-! ## Tests -/

/-- A test of one operand. -/
def test? (s : State) (operator operand : String) : Option Bool :=
  let entry : Option Entry := match s.files.locate (s.path operand) with
    | .ok l => s.files.find? l
    | .error _ => none
  match operator with
  | "-n" => some (operand ≠ "")
  | "-z" => some (operand = "")
  | "-e" | "-r" | "-w" => some entry.isSome
  | "-f" => some (match entry with
    | some (.file _) => true
    | _ => false)
  | "-d" | "-x" => some (entry == some .directory)
  | "-s" => some (match entry with
    | some (.file (.text t)) => t ≠ ""
    | some (.file (.binary _)) | some .directory => true
    | _ => false)
  | "-c" => some (entry == some .null)
  | "-L" | "-h" | "-b" | "-p" | "-S" | "-t" | "-g" | "-u" | "-k" => some false
  | _ => none

/-- The whole number that a text spells in base ten. -/
def decimal? (s : String) : Option Int :=
  match (s.toList.dropWhile isBlank).reverse.dropWhile isBlank |>.reverse with
  | '-' :: cs => (Text.digits? 10 cs).map fun n => -(n : Int)
  | '+' :: cs | cs => (Text.digits? 10 cs).map fun n => (n : Int)

/-- A test of two operands ; an error if one of them should be a number and is none. -/
def compare? (operator a b : String) : Option (Except String Bool) :=
  let numbers (test : Int → Int → Bool) : Option (Except String Bool) :=
    match decimal? a, decimal? b with
    | some m, some n => some (.ok (test m n))
    | none, _ => some (.error a)
    | _, none => some (.error b)
  match operator with
  | "=" => some (.ok (a = b))
  | "!=" => some (.ok (a ≠ b))
  | "<" => some (.ok (a < b))
  | ">" => some (.ok (b < a))
  | "-eq" => numbers (· == ·)
  | "-ne" => numbers (· != ·)
  | "-lt" => numbers (· < ·)
  | "-le" => numbers (· ≤ ·)
  | "-gt" => numbers fun a b => b < a
  | "-ge" => numbers fun a b => b ≤ a
  | "-nt" | "-ot" | "-ef" => some (.ok false)
  | _ => none

mutual

/-- The value of tests joined by `-o`, and what is left of the arguments. -/
def anyTest (s : State) : Nat → List String → Except String (Bool × List String)
  | 0, _ => .error "argument expected"
  | fuel + 1, args => do
    match ← allTests s fuel args with
    | (b, "-o" :: rest) =>
      let (c, rest) ← anyTest s fuel rest
      return (b || c, rest)
    | r => return r

/-- The value of tests joined by `-a`, and what is left of the arguments. -/
def allTests (s : State) : Nat → List String → Except String (Bool × List String)
  | 0, _ => .error "argument expected"
  | fuel + 1, args => do
    match ← oneTest s fuel args with
    | (b, "-a" :: rest) =>
      let (c, rest) ← allTests s fuel rest
      return (b && c, rest)
    | r => return r

/-- The value of a test, and what is left of the arguments. -/
def oneTest (s : State) : Nat → List String → Except String (Bool × List String)
  | 0, _ => .error "argument expected"
  | fuel + 1, args => do
    match args with
    | [] => .error "argument expected"
    | a :: operator :: b :: rest =>
      match compare? operator a b with
      | some (.ok result) => return (result, rest)
      | some (.error operand) => .error ("Illegal number: " ++ operand)
      | none =>
        if a = "!" then
          let (b, rest) ← oneTest s fuel args.tail
          return (!b, rest)
        else if a = "(" then
          match ← anyTest s fuel args.tail with
          | (b, ")" :: rest) => return (b, rest)
          | _ => .error "closing paren expected"
        else match test? s a operator with
          | some result => return (result, b :: rest)
          | none => return (a ≠ "", args.tail)
    | [a, b] =>
      if a = "!" then
        let (c, rest) ← oneTest s fuel [b]
        return (!c, rest)
      else match test? s a b with
        | some result => return (result, [])
        | none => return (a ≠ "", [b])
    | [a] => return (a ≠ "", [])

end

/-- The status of a test. -/
def testStatus (s : State) (args : List String) : Except String Nat :=
  match args with
  | [] => .ok 1
  | args => match anyTest s (2 * args.length + 4) args with
    | .ok (b, []) => .ok (if b then 0 else 1)
    | .ok (_, extra :: _) => .error (extra ++ ": unexpected operator")
    | .error e => .error e

/-- `test`. -/
def testCommand (name : String) (args : List String) : Run Unit := do
  let args? := if name = "[" then
      if args.getLast? = some "]" then some args.dropLast else none
    else some args
  match args? with
  | none => refuse 2 "[: missing ]"
  | some args => match testStatus (← get) args with
    | .ok status => finish status
    | .error message => refuse 2 (name ++ ": " ++ message)

/-- `printf`. -/
def printCommand (args : List String) : Run Unit :=
  match if args.head? = some "--" then args.tail else args with
  | [] => refuse 2 "printf: usage: printf format [arg ...]"
  | text :: rest =>
    if text.startsWith "-" && text ≠ "-" && args.head? = some text then
      refuse 2 ("printf: Illegal option " ++ text)
    else
      let (out, status) := printed text rest
      modify fun s => { s.print 1 out with status }

/-! ## Reading a line -/

/-- A line with its backslashes read, where `true` marks the characters behind them, and
what is left of the text ; whether the line ended in a line feed. -/
def readLine (raw : Bool) : List Char → Field × List Char × Bool
  | [] => ([], [], false)
  | '\n' :: rest => ([], rest, true)
  | '\\' :: c :: rest =>
    if raw then
      let (line, rest, ended) := readLine raw (c :: rest)
      (('\\', false) :: line, rest, ended)
    else
      let (line, rest, ended) := readLine raw rest
      (if c = '\n' then line else (c, true) :: line, rest, ended)
  | c :: rest =>
    let (line, rest, ended) := readLine raw rest
    ((c, false) :: line, rest, ended)

/-- A line cut into as many values as there are names, the last with all that is left. -/
def values (separators : List Char) : List String → Field → List (String × String)
  | [], _ => []
  | [name], line =>
    let blank (c : Char × Bool) : Bool := !c.2 && isBlank c.1 && separators.contains c.1
    let kept := ((line.dropWhile blank).reverse.dropWhile blank).reverse
    [(name, Field.text kept)]
  | name :: names, line =>
    let ends (c : Char × Bool) : Bool := !c.2 && separators.contains c.1
    let blank (c : Char × Bool) : Bool := ends c && isBlank c.1
    let line := line.dropWhile blank
    let value := line.takeWhile (!ends ·)
    let rest := (line.drop value.length).dropWhile blank
    let rest := match line.drop value.length, rest with
      | c :: _, d :: more => if blank c && ends d then more else if blank c then rest else more
      | _, rest => rest
    (name, Field.text value) :: values separators names rest

/-- `read`. -/
def readCommand (args : List String) : Run Unit := do
  match options? "r" "p" args with
  | none => refuse 2 "read: Illegal option"
  | some (_, []) => refuse 2 "read: arg count"
  | some (os, names) =>
    let s ← get
    let (line, rest, ended) := readLine (Options.has os 'r') (s.input 0).toList
    let s := s.leave 0 (String.ofList rest)
    let found := values s.separators names line
    set ((found.takeWhile fun v => !s.fixed.contains v.1).foldl (fun s v => s.assign v.1 v.2) s)
    match names.find? s.fixed.contains with
    | some name => refuse 2 ("read: " ++ name ++ ": is read only")
    | none => finish (if ended then 0 else 1)

/-! ## Options and variables -/

/-- The letter of an option with a name. -/
def optionLetter? (name : String) : Option Char :=
  match name with
  | "errexit" => some 'e'
  | "nounset" => some 'u'
  | "noglob" => some 'f'
  | "xtrace" => some 'x'
  | "verbose" => some 'v'
  | "noexec" => some 'n'
  | "allexport" => some 'a'
  | "noclobber" => some 'C'
  | "monitor" => some 'm'
  | _ => none

/-- The options of a shell, and the arguments behind them if there are any or a dash says
so. -/
def shellOptions? (s : State) : List String → Option (State × Option (List String))
  | [] => some (s, none)
  | arg :: rest =>
    let turn (on : Bool) (cs : List Char) : Option State :=
      if cs.all "efuxvnaCmbc".toList.contains then
        let others := s.options.filter (!cs.contains ·)
        some { s with options := if on then others ++ cs else others }
      else none
    match arg.toList, rest with
    | ['-', '-'], rest => some (s, some rest)
    | ['-', 'o'], name :: rest => match optionLetter? name with
      | some c => (turn true [c]).bind fun s => shellOptions? s rest
      | none => none
    | ['+', 'o'], name :: rest => match optionLetter? name with
      | some c => (turn false [c]).bind fun s => shellOptions? s rest
      | none => none
    | '-' :: c :: cs, rest => (turn true (c :: cs)).bind fun s => shellOptions? s rest
    | '+' :: c :: cs, rest => (turn false (c :: cs)).bind fun s => shellOptions? s rest
    | _, _ => some (s, some (arg :: rest))

/-- `set`. -/
def setCommand (args : List String) : Run Unit := do
  let s ← get
  match shellOptions? s args with
  | none => abort "set: Illegal option"
  | some (s, none) => set { s with status := 0 }
  | some (s, some args) => set { s with args := s.args.take 1 ++ args, status := 0 }

/-- A name and the value behind an equals sign, if there is one. -/
def assignment (arg : String) : String × Option String :=
  let name := arg.toList.takeWhile (· ≠ '=')
  (String.ofList name,
    if name.length < arg.length then some (String.ofList (arg.toList.drop (name.length + 1)))
    else none)

/-- Give a variable another value. -/
def setVariable (name value : String) : Run Unit := do
  if (← get).fixed.contains name then abort (name ++ ": is read only")
  else modify fun s => s.assign name value

/-- Commands such as `export`, which mark variables before or after they give them a
value. -/
def declareCommand (before after : State → String → State) (args : List String) : Run Unit := do
  (args.filter fun a => !a.startsWith "-").forM fun arg => do
    let (name, value) := assignment arg
    modify fun s => before s name
    match value with
    | some v => setVariable name v
    | none => pure ()
    modify fun s => after s name
  finish 0

/-- A state as it is, whatever the variable. -/
def unmarked (s : State) (_ : String) : State := s

/-- A variable that other programs get. -/
def markExported (s : State) (name : String) : State := { s with exported := name :: s.exported }

/-- A variable that keeps its value. -/
def markFixed (s : State) (name : String) : State := { s with fixed := name :: s.fixed }

/-- A variable that the function under way has for itself. -/
def markOwn (s : State) (name : String) : State :=
  match s.locals with
  | top :: rest => { s with locals := ((name, s.bindings.lookup name) :: top) :: rest }
  | [] => s

/-- `local`. -/
def localCommand (args : List String) : Run Unit := do
  if (← get).locals.isEmpty then abort "local: not in a function"
  else declareCommand markOwn unmarked args

/-- `unset`. -/
def unsetCommand (args : List String) : Run Unit := do
  let names := args.filter fun a => !a.startsWith "-"
  if args.head? = some "-f" then
    modify fun s => { s with functions := s.functions.filter fun f => !names.contains f.1 }
  else
    names.forM fun name => do
      if (← get).fixed.contains name then abort ("unset: " ++ name ++ ": is read only")
      modify fun s => s.unassign name
  finish 0

/-! ## The end of a script -/

/-- The number that an argument spells, if there is one. -/
def count? (args : List String) (default : Nat) : Option Nat :=
  match args with
  | [] => some default
  | n :: _ => Text.digits? 10 n.toList

/-- `exit` and `return`. -/
def leaveCommand (name : String) (flow : Flow) (args : List String) : Run Unit := do
  match count? args (← get).status with
  | none => abort (name ++ ": Illegal number: " ++ args.headD "")
  | some n =>
    finish (n % 256)
    throw flow

/-- `break` and `continue`. Without a loop they do nothing. -/
def leaveLoops (name : String) (flow : Nat → Flow) (args : List String) : Run Unit := do
  match count? args 1 with
  | none | some 0 => abort (name ++ ": Illegal number: " ++ args.headD "")
  | some n =>
    finish 0
    let loops := (← get).loops
    if loops ≠ 0 then throw (flow (min n loops))

/-- `shift`. -/
def shiftCommand (args : List String) : Run Unit := do
  let s ← get
  match count? args 1 with
  | none => abort ("shift: Illegal number: " ++ args.headD "")
  | some n =>
    if s.args.length - 1 < n then abort "shift: can't shift that many"
    else set { s with args := s.args.take 1 ++ s.args.drop (n + 1), status := 0 }

/-- The signals that end no program. -/
def isHarmless (signal : Nat) : Bool :=
  [0, 17, 18, 19, 20, 21, 22, 23, 28].contains signal

/-- The signal that an argument stands for. -/
def signalOf? (arg : String) : Option Nat :=
  match Text.digits? 10 arg.toList with
  | some n => if n < 65 then some n else none
  | none => (Ending.signal? (String.ofList (arg.toList.map Char.toUpper))).filter (· ≠ 16)

/-- The name of a signal, or its number if it has none here. -/
def signalText (n : Nat) : String :=
  if n = 0 then "EXIT" else ((Ending.signalName? n).filter fun _ => n ≠ 16).getD (toString n)

/-- Send a signal to the script itself. -/
def receive (signal : Nat) : Run Unit := do
  let s ← get
  match if signal = 9 then none else s.traps.lookup signal with
  | some "" => finish 0
  | some action => set { s with status := 0, pending := s.pending ++ [action] }
  | none => if isHarmless signal then finish 0 else throw (.killed signal)

/-- Send a signal to the programs with some numbers. -/
def sendAll (signal : Nat) : List String → Run Unit
  | [] => return ()
  | number :: numbers => do
    match Text.digits? 10 number.toList with
    | none => refuse 2 ("kill: Illegal number: " ++ number)
    | some _ =>
      if number = State.ownNumber then
        receive signal
        sendAll signal numbers
      else
        sendAll signal numbers
        refuse 1 "kill: No such process"

/-- `kill`. -/
def killCommand (args : List String) : Run Unit := do
  let send (signal? : Option Nat) (numbers : List String) : Run Unit :=
    match signal?, numbers with
    | none, _ => refuse 2 "kill: Illegal option"
    | some _, [] => refuse 2 "kill: Usage: kill [-s sigspec | -signum | -sigspec] [pid | job]..."
    | some n, numbers => sendAll n numbers
  match args with
  | ["-l"] => modify fun s =>
      { s.print 1 (Text.unlines ("0" :: (List.range 31).map fun n => signalText (n + 1))) with
        status := 0 }
  | "-l" :: number :: _ =>
    match Text.digits? 10 number.toList with
    | none => refuse 2 ("kill: Illegal number: " ++ number)
    | some n =>
      let n := if 128 < n then n - 128 else n
      if 0 < n && n < 65 then modify fun s => { s.print 1 (signalText n ++ "\n") with status := 0 }
      else refuse 2 ("kill: invalid signal number or exit status: " ++ number)
  | "-s" :: name :: numbers => send (signalOf? name) numbers
  | "--" :: numbers => send (some 15) numbers
  | arg :: rest => match arg.toList with
    | '-' :: cs => send (signalOf? (String.ofList cs)) rest
    | _ => send (some 15) (arg :: rest)
  | [] => send (some 15) []

/-! ## The working directory -/

/-- A path without the parts that say nothing and those that `..` takes back. -/
def simplified (path : String) : String :=
  let parts := (Path.parts path).foldl (fun (acc : List String) part =>
    if Path.isIdle part then acc
    else if part = ".." then
      match acc with
      | [] => if Path.isAbsolute path then [] else [".."]
      | last :: rest => if last = ".." then ".." :: acc else rest
    else part :: acc) []
  (if Path.isAbsolute path then "/" else "") ++ Text.joinWith "/" parts.reverse

/-- `cd`. -/
def enterCommand (args : List String) : Run Unit := do
  let s ← get
  let target := (args.filter fun a => a ≠ "-P" && a ≠ "-L" && a ≠ "--").headD ""
  let path := s.path target
  if target = "" then finish 0
  else if s.files.isDirectory path then set { s with directory := simplified path, status := 0 }
  else refuse 2 ("cd: can't cd to " ++ target)

/-! ## The table -/

/-- The signal that an argument of `trap` stands for ; the end of the script counts as one. -/
def trapped? (arg : String) : Option Nat :=
  if arg.map Char.toUpper = "EXIT" then some 0 else signalOf? arg

/-- What is run when a signal arrives, or nothing more than usual. -/
def setTraps (action : Option String) : List String → Run Unit
  | [] => finish 0
  | arg :: args => do
    match trapped? arg with
    | none => refuse 1 ("trap: " ++ arg ++ ": bad trap")
    | some n =>
      modify fun s =>
        { s with traps := (action.map fun a => (n, a)).toList ++ s.traps.filter fun t => t.1 ≠ n }
      setTraps action args

/-- `trap`. -/
def trapCommand (args : List String) : Run Unit := do
  match if args.head? = some "--" then args.tail else args with
  | [] => modify fun s =>
    let line (t : Nat × String) : String :=
      let action := Text.joinWith "'\x22'\x22'" (t.2.splitOn "'")
      "trap -- '" ++ action ++ "' " ++ signalText t.1 ++ "\n"
    let traps := s.traps.mergeSort fun a b => a.1 ≤ b.1
    { s.print 1 (String.join (traps.map line)) with status := 0 }
  | [signal] => setTraps none [signal]
  | action :: signals =>
    if (Text.digits? 10 action.toList).isSome then setTraps none (action :: signals)
    else setTraps (if action = "-" then none else some action) signals

/-- `wait`. -/
def waitCommand (args : List String) : Run Unit := do
  let s ← get
  match args.getLast? with
  | none => finish 0
  | some number => finish (if number = State.backgroundNumber then s.backgroundStatus else 127)

/-- Commands of the shell that end the script if they go wrong, and keep assignments in
front of them. -/
def specialCommands : List String :=
  [".", ":", "break", "continue", "eval", "exec", "exit", "export", "readonly", "return", "set",
    "shift", "times", "trap", "unset"]

/-- The commands of the shell that run no other command. -/
def builtin? (name : String) (args : List String) : Option (Run Unit) :=
  match name with
  | "wait" => some (waitCommand args)
  | ":" | "true" | "umask" | "times" | "hash" | "alias" | "unalias" | "ulimit" =>
    some (finish 0)
  | "false" => some (finish 1)
  | "echo" => some (modify fun s => { s.print 1 (echoed args) with status := 0 })
  | "printf" => some (printCommand args)
  | "test" | "[" => some (testCommand name args)
  | "read" => some (readCommand args)
  | "cd" | "chdir" => some (enterCommand args)
  | "pwd" => some (modify fun s => { s.print 1 ("/" ++ s.directory ++ "\n") with status := 0 })
  | "set" => some (setCommand args)
  | "export" => some (declareCommand unmarked markExported args)
  | "readonly" => some (declareCommand unmarked markFixed args)
  | "local" => some (localCommand args)
  | "unset" => some (unsetCommand args)
  | "shift" => some (shiftCommand args)
  | "exit" => some (leaveCommand name .exit args)
  | "return" => some (leaveCommand name .returned args)
  | "break" => some (leaveLoops name .broke args)
  | "continue" => some (leaveLoops name .continued args)
  | "kill" => some (killCommand args)
  | "trap" => some (trapCommand args)
  | _ => none

end SettingsCompiler.Shell
