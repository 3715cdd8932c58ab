import SettingsCompiler.Shell.Builtin
import SettingsCompiler.Shell.Reader

/-!
# Running scripts

Words are expanded and commands are run by recursion on the steps that are left. What a
command does to the script's state stays, also when a `Flow` leaves it ; a part that runs
on its own keeps only what it did to files and what it printed (`isolated`).

A command that fails ends a script with the option `e`, unless its status is under test.

All of this stands for `sh`, a formatter that a configuration may name. No theorem is about it.
-/

namespace SettingsCompiler.Shell

/-! ## Parts of a run -/

/-- A part of a run and how it ended, where the end goes no further. -/
def caught (body : Run Unit) : Run (Option Flow) :=
  tryCatch (do body; return none) fun flow => return some flow

/-- A part that ends with what is to be run at its end. That keeps the status unless it
sets another one. -/
def ending (runText : String → Run Unit) (body : Run Unit) : Run Unit := do
  let flow ← caught body
  let s ← get
  match flow, s.traps.lookup 0 with
  | some (.killed signal), _ => throw (.killed signal)
  | some .stuck, _ => throw .stuck
  | _, some action =>
    set { s with traps := s.traps.filter fun t => t.1 ≠ 0 }
    match ← caught (runText action) with
    | some .exit => throw .exit
    | some flow =>
      finish s.status
      throw flow
    | none => finish s.status
  | some flow, none => throw flow
  | none, none => return ()

/-- A part that runs on its own. -/
def isolated (runText : String → Run Unit) (body : Run Unit) : Run Unit := do
  let before ← get
  set before.part
  let flow ← caught (ending runText body)
  modify fun after => before.afterPart after
  match flow with
  | some (.killed signal) => throw (.killed signal)
  | some .stuck => throw .stuck
  | _ => return ()

/-- What a part that runs on its own prints. -/
def printedBy (runText : String → Run Unit) (body : Run Unit) : Run String := do
  let before ← get
  let n := before.buffers.length
  set ({ before with buffers := before.buffers ++ [""] }.connect 1 (.buffer n))
  let flow ← caught (isolated runText body)
  let after ← get
  set { after with buffers := after.buffers.take n, descriptors := before.descriptors }
  match flow with
  | some flow => throw flow
  | none => return (after.buffers[n]?).getD ""

/-- A part with channels of its own, which `opened` sets up ; `special` commands end the
script if that fails. -/
def connected (special : Bool) (opened : Run Bool) (body : Run Unit) : Run Unit := do
  let before ← get
  if ← opened then
    let flow ← caught body
    modify fun s => { s with descriptors := before.descriptors }
    match flow with
    | some flow => throw flow
    | none => return ()
  else
    modify fun s => { s with descriptors := before.descriptors, status := 2 }
    if special then throw .exit

/-- Run the body of a loop. The flag says whether the loop goes on. -/
def turn (body : Run Unit) : Run Bool := do
  modify fun s => { s with loops := s.loops + 1 }
  let flow ← caught body
  modify fun s => { s with loops := s.loops - 1 }
  match flow with
  | none | some (.continued 1) | some (.continued 0) => return true
  | some (.broke 1) | some (.broke 0) => return false
  | some (.broke n) => throw (.broke (n - 1))
  | some (.continued n) => throw (.continued (n - 1))
  | some flow => throw flow

/-- End the script if a command that is not under test has failed. -/
def checkFailure (tested : Bool) : Run Unit := do
  let s ← get
  if !tested && s.status ≠ 0 && s.has 'e' then throw .exit

/-- Run a function with its arguments. -/
def call (args : List String) (body : Run Unit) : Run Unit := do
  let before ← get
  set { before with
    args := before.args.take 1 ++ args, locals := [] :: before.locals, loops := 0 }
  let flow ← caught body
  modify fun s =>
    let s := (s.locals.headD []).foldl State.restore s
    { s with args := before.args, locals := before.locals, loops := before.loops }
  match flow with
  | none | some .returned => return ()
  | some flow => throw flow

/-- Run another program and take its end as the status. -/
def awaited (body : Run Unit) : Run Unit := do
  match ← caught body with
  | some (.killed signal) => finish (128 + signal)
  | some flow => throw flow
  | none => return ()

/-- Run a utility, if there is one with the name. -/
def runUtility (name : String) (args : List String) : Run Unit := do
  let s ← get
  match programName? name >>= utility? with
  | some run =>
    let r := run ⟨lastPart name, args, s.input 0, s.files, s.directory⟩
    let s := ({ s with files := r.files }.leave 0 r.input).print 1 r.printed
    set { s.print 2 r.complaints with status := r.status }
  | none => refuse (statusOfMissing s name) (name ++ ": not found")
where
  /-- The status of a name that is none of a program. -/
  statusOfMissing (s : State) (name : String) : Nat :=
    match s.files.locate (s.path name) with
    | .ok l => if name.contains '/' && (s.files.find? l).isSome then 126 else 127
    | .error _ => 127

/-- What a name stands for, in short and in words. -/
def description? (s : State) (name : String) : Option (String × String) :=
  let known (what : String) : Option (String × String) := some (name, " is " ++ what)
  if reservedWords.contains name then known "a shell keyword"
  else if (s.functions.lookup name).isSome then known "a shell function"
  else if specialCommands.contains name then known "a special shell builtin"
  else if ["command", "type"].contains name || (builtin? name []).isSome then
    known "a shell builtin"
  else if isShell name || (utility? name).isSome then
    some ("/usr/bin/" ++ name, " is /usr/bin/" ++ name)
  else none

/-- Print what names stand for, in short or in words. -/
def describe (inWords : Bool) (names : List String) : Run Unit :=
  modify fun s =>
    let line (n : String) : String := match inWords, description? s n with
      | true, some (_, words) => n ++ words ++ "\n"
      | true, none => n ++ ": not found\n"
      | false, some (short, _) => short ++ "\n"
      | false, none => ""
    { s.print 1 (String.join (names.map line)) with
      status := if names.all fun n => (description? s n).isSome then 0 else 127 }

/-- The values of a list of all arguments, in one field or in several. -/
def argumentPieces (s : State) (quoted joined : Bool) : List Piece :=
  let args := s.args.tail
  if args.isEmpty then if quoted && !joined then [.absence] else []
  else if quoted && joined then
    let mark := match s.bindings.lookup "IFS" with
      | some cs => String.ofList (cs.toList.take 1)
      | none => " "
    Piece.ofText true false (Text.joinWith mark args).toList
  else
    (args.map fun a => Piece.ofText quoted true a.toList).intersperse [.next] |>.flatten

/-- A text without the line feeds at its end. -/
def withoutLineEnds (s : String) : List Char :=
  (s.toList.reverse.dropWhile (· = '\n')).reverse

/-! ## Evaluation -/

mutual

/-- The pieces that a word stands for. -/
def expand : Nat → Word → Run (List Piece)
  | 0, _ => throw .stuck
  | _ + 1, [] => return []
  | fuel + 1, part :: parts => do
    let pieces ← match part with
      | .text quoted cs =>
        pure ((if quoted then [.presence] else []) ++ Piece.ofText quoted false cs)
      | .parameter quoted name use => expandParameter fuel quoted name use
      | .output quoted script =>
        let text ← printedBy (runText fuel false) (run fuel false script)
        modify fun s => { s with outputStatus := s.status }
        pure (Piece.ofText quoted true (withoutLineEnds text))
      | .arithmetic quoted expression =>
        let text := Piece.text (← expand fuel expression)
        let s ← get
        match evaluate? s.bindings text.toList with
        | some (n, bindings) =>
          match s.fixed.find? fun name => bindings.lookup name ≠ s.bindings.lookup name with
          | some name => abort (name ++ ": is read only")
          | none => set { s with bindings }
          pure (Piece.ofText quoted true (toString n).toList)
        | none =>
          abort "arithmetic expression: expecting primary"
          pure []
    return pieces ++ (← expand fuel parts)

/-- The pieces that a parameter stands for. -/
def expandParameter : Nat → Bool → String → Use → Run (List Piece)
  | 0, _, _, _ => throw .stuck
  | fuel + 1, quoted, name, use => do
    let s ← get
    let value := s.parameter? name
    let pieces : List Piece :=
      if name = "@" || name = "*" then argumentPieces s quoted (name = "*")
      else Piece.ofText quoted true (value.getD "").toList
    let counts (orEmpty : Bool) : Bool := match value with
      | some v => !(orEmpty && v = "")
      | none => false
    let other (word : Word) : Run (List Piece) := do
      let pieces ← expand fuel word
      return if quoted then pieces else Piece.splitting pieces
    let checkSet : Run Unit :=
      if value.isNone && s.has 'u' && name ≠ "@" && name ≠ "*" then
        abort (name ++ ": parameter not set")
      else pure ()
    match use with
    | .value =>
      checkSet
      return pieces
    | .length =>
      checkSet
      return Piece.ofText quoted true (toString (value.getD "").length).toList
    | .orElse orEmpty word => if counts orEmpty then return pieces else other word
    | .ifSet orEmpty word => if counts orEmpty then other word else return []
    | .assign orEmpty word =>
      if counts orEmpty then return pieces
      else
        let text := Piece.text (← expand fuel word)
        setVariable name text
        return Piece.ofText quoted true text.toList
    | .demand orEmpty word =>
      if counts orEmpty then return pieces
      else
        let text := Piece.text (← expand fuel word)
        abort (name ++ ": " ++ (if text = "" then "parameter not set" else text))
        return []
    | .trim atEnd longest pattern =>
      checkSet
      let pattern := Pattern.ofChars (Piece.chars (← expand fuel pattern))
      return Piece.ofText quoted true (pattern.trim atEnd longest (value.getD "").toList)

/-- The arguments that words stand for. -/
def arguments : Nat → List Word → Run (List String)
  | 0, _ => throw .stuck
  | _ + 1, [] => return []
  | fuel + 1, word :: words => do
    let pieces ← expand fuel word
    let s ← get
    return Piece.arguments s pieces ++ (← arguments fuel words)

/-- Set up the channels of a command ; whether that succeeds. -/
def openAll : Nat → List Redirect → Run Bool
  | 0, _ => throw .stuck
  | _ + 1, [] => return true
  | fuel + 1, redirect :: redirects => do
    let attempt (file : Word) (connect : State → String → Except OsError State) :
        Run Bool := do
      let file := Piece.text (← expand fuel file)
      let s ← get
      match connect s file with
      | .ok s =>
        set s
        return true
      | .error _ =>
        set (s.complain ("cannot open " ++ file))
        return false
    let opened ← match redirect with
      | .input descriptor file => attempt file fun s file => s.openInput descriptor file
      | .output descriptor append file =>
        attempt file fun s file => s.openOutput descriptor append file
      | .copy descriptor source =>
        attempt source fun s source => match s.copyChannel descriptor source with
          | some s => .ok s
          | none => .error .notFound
      | .document descriptor number =>
        let word := ((← get).documents[number]?).getD []
        let text := Piece.text (← expand fuel word)
        modify fun s => s.feed descriptor text
        pure true
    if opened then openAll fuel redirects else return false

/-- Assign to variables. -/
def assignAll : Nat → List (String × Word) → Run Unit
  | 0, _ => throw .stuck
  | _ + 1, [] => return ()
  | fuel + 1, (name, word) :: assignments => do
    let text := Piece.text (← expand fuel word)
    setVariable name text
    assignAll fuel assignments

/-- Run a command ; `tested` says whether its status is under test. -/
def run : Nat → Bool → Command → Run Unit
  | 0, _, _ => throw .stuck
  | fuel + 1, tested, c => do
    if (← get).has 'n' then return ()
    match c with
    | .nothing => return ()
    | .simple assignments words redirects =>
      modify fun s => { s with outputStatus := 0 }
      let args ← arguments fuel words
      runSimple fuel tested assignments redirects args
      checkFailure tested
    | .redirected body redirects =>
      connected false (openAll fuel redirects) (run fuel tested body)
      checkFailure tested
    | .sequence first second =>
      run fuel tested first
      run fuel tested second
    | .chain onSuccess first second =>
      run fuel true first
      if ((← get).status = 0) = onSuccess then run fuel tested second
    | .negation body =>
      run fuel true body
      modify fun s => { s with status := if s.status = 0 then 1 else 0 }
    | .pipeline commands =>
      let before ← get
      runPipeline fuel tested commands
      modify fun s => { s with descriptors := before.descriptors }
      runPending fuel
      checkFailure tested
    | .background body =>
      isolated (runText fuel tested) (run fuel tested body)
      modify fun s => { s with backgroundStatus := s.status, status := 0 }
    | .subshell body =>
      isolated (runText fuel tested) (run fuel tested body)
      runPending fuel
      checkFailure tested
    | .choice condition body otherwise =>
      run fuel true condition
      if (← get).status = 0 then run fuel tested body
      else
        finish 0
        run fuel tested otherwise
    | .loop onSuccess condition body => runLoop fuel tested onSuccess condition body 0
    | .forEach name words body =>
      let args ← match words with
        | some words => arguments fuel words
        | none => pure (← get).args.tail
      finish 0
      runEach fuel tested name body args
    | .select subject branches =>
      let text := Piece.text (← expand fuel subject)
      finish 0
      runBranch fuel tested text.toList branches
    | .function name body =>
      modify fun s =>
        { s with functions := (name, body) :: s.functions.filter fun f => f.1 ≠ name }
      finish 0

/-- Run a command with its arguments. -/
def runSimple : Nat → Bool → List (String × Word) → List Redirect → List String → Run Unit
  | 0, _, _, _, _ => throw .stuck
  | fuel + 1, tested, assignments, redirects, args => do
    match args with
    | [] =>
      assignAll fuel assignments
      modify fun s => { s with status := s.outputStatus }
      connected false (openAll fuel redirects) (return ())
    | "exec" :: args =>
      assignAll fuel assignments
      if ← openAll fuel redirects then
        if args.isEmpty then finish 0
        else
          modify fun s => { s with traps := [] }
          if isShell (args.headD "") then runShell fuel args.tail
          else runCommand fuel tested args
          throw .exit
      else
        finish 2
        throw .exit
    | name :: rest =>
      let special := specialCommands.contains name
      let before ← get
      let names := assignments.map Prod.fst
      connected special (openAll fuel redirects) do
        assignAll fuel assignments
        if !special then modify fun s => { s with exported := names ++ s.exported }
        let flow ← caught (runCommand fuel tested (name :: rest))
        if !special then
          modify fun s =>
            let s := names.foldl (fun s n => s.restore (n, before.bindings.lookup n)) s
            { s with exported := s.exported.filter fun n =>
                !names.contains n || before.exported.contains n }
        match flow with
        | some flow => throw flow
        | none => return ()
      runPending fuel

/-- Run a function, a command of the shell or a utility. -/
def runCommand : Nat → Bool → List String → Run Unit
  | 0, _, _ => throw .stuck
  | _ + 1, _, [] => return ()
  | fuel + 1, tested, name :: args => do
    let s ← get
    match s.functions.lookup name with
    | some body => call args (run fuel tested body)
    | none => match name, args with
      | "eval", args => runText fuel tested (Text.joinWith " " args)
      | ".", file :: _ => match s.files.read (s.path file) with
        | .ok text => match ← caught (runText fuel tested text) with
          | none | some .returned => return ()
          | some flow => throw flow
        | .error _ => abort (".: cannot open " ++ file)
      | "command", "-v" :: names => describe false (names.take 1)
      | "command", "-V" :: names => describe true (names.take 1)
      | "type", names => describe true names
      | "command", args => runCommand fuel tested args
      | "env", args =>
        let sets := args.takeWhile fun a => a.contains '='
        let assignments := sets.map fun a =>
          ((assignment a).1, [Part.text true ((assignment a).2.getD "").toList])
        match args.drop sets.length with
        | [] => finish 0
        | args => runSimple fuel tested assignments [] args
      | name, args => match builtin? name args with
        | some body => body
        | none => if isShell name then awaited (runShell fuel args) else runUtility name args

/-- Run what is to be run for signals that arrived, which keeps the status. -/
def runPending : Nat → Run Unit
  | 0 => throw .stuck
  | fuel + 1 => do
    let s ← get
    match s.inner, s.pending with
    | false, action :: pending =>
      set { s with pending }
      runText fuel false action
      finish s.status
      runPending fuel
    | _, _ => return ()

/-- Run the commands of a text. -/
def runText : Nat → Bool → String → Run Unit
  | 0, _, _ => throw .stuck
  | fuel + 1, tested, text => do
    let script := Script.ofText text.toList
    let before := (← get).documents
    modify fun s => { s with documents := script.documents }
    if script.commands.all Command.isNothing then finish 0
    runLines fuel tested script.commands
    modify fun s => { s with documents := before }
    if !script.complete then abort "Syntax error"

/-- Run commands one after the other. -/
def runLines : Nat → Bool → List Command → Run Unit
  | 0, _, _ => throw .stuck
  | _ + 1, _, [] => return ()
  | fuel + 1, tested, c :: cs => do
    run fuel tested c
    runLines fuel tested cs

/-- Run another shell. Its arguments are options, a script behind `-c` or a file with
one, and the script's own arguments. -/
def runShell : Nat → List String → Run Unit
  | 0, _ => throw .stuck
  | fuel + 1, args => do
    let s ← get
    let fresh := s.child ["sh"]
    let whole (s : State) (text : String) : Run Unit :=
      isolated (runText fuel false) do
        set s
        runText fuel false text
    match shellOptions? fresh args with
    | none => refuse 2 "Illegal option"
    | some (fresh, rest) =>
      if fresh.has 'c' then
        match rest with
        | some (text :: args) =>
          whole { fresh with
            args := if args.isEmpty then ["sh"] else args,
            options := fresh.options.filter (· ≠ 'c') } text
        | _ => refuse 2 "-c requires an argument"
      else match rest with
        | some (file :: args) => match s.files.read (s.path file) with
          | .ok text => whole { fresh with args := file :: args } text
          | .error .isADirectory => finish 0
          | .error _ => refuse 2 ("0: cannot open " ++ file)
        | _ =>
          let text := s.input 0
          modify fun s => s.leave 0 ""
          whole (fresh.leave 0 "") text

/-- Run the commands of a pipeline. -/
def runPipeline : Nat → Bool → List Command → Run Unit
  | 0, _, _ => throw .stuck
  | _ + 1, _, [] => return ()
  | fuel + 1, tested, [c] => isolated (runText fuel tested) (run fuel tested c)
  | fuel + 1, tested, c :: cs => do
    let text ← printedBy (runText fuel tested) (run fuel tested c)
    modify fun s => s.feed 0 text
    runPipeline fuel tested cs

/-- Run a loop ; `status` is the one of its body so far. -/
def runLoop : Nat → Bool → Bool → Command → Command → Nat → Run Unit
  | 0, _, _, _, _, _ => throw .stuck
  | fuel + 1, tested, onSuccess, condition, body, status => do
    let going ← turn (run fuel true condition)
    if !going then return ()
    if ((← get).status = 0) = onSuccess then
      if ← turn (run fuel tested body) then
        runLoop fuel tested onSuccess condition body (← get).status
    else finish status

/-- Run a command for each of some values of a variable. -/
def runEach : Nat → Bool → String → Command → List String → Run Unit
  | 0, _, _, _, _ => throw .stuck
  | _ + 1, _, _, _, [] => return ()
  | fuel + 1, tested, name, body, value :: values => do
    setVariable name value
    if ← turn (run fuel tested body) then runEach fuel tested name body values

/-- Run the first of the branches with a pattern that matches. -/
def runBranch : Nat → Bool → List Char → List (List Word × Command) → Run Unit
  | 0, _, _, _ => throw .stuck
  | _ + 1, _, _, [] => return ()
  | fuel + 1, tested, text, (patterns, body) :: branches => do
    if ← anyMatches fuel text patterns then run fuel tested body
    else runBranch fuel tested text branches

/-- Whether one of some patterns matches a text. -/
def anyMatches : Nat → List Char → List Word → Run Bool
  | 0, _, _ => throw .stuck
  | _ + 1, _, [] => return false
  | fuel + 1, text, pattern :: patterns => do
    let pieces ← expand fuel pattern
    if (Pattern.ofChars (Piece.chars pieces)).accepts text then return true
    else anyMatches fuel text patterns

end

end SettingsCompiler.Shell
