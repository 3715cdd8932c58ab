import SettingsCompiler.Command.Plan
import SettingsCompiler.Shell.Program

/-!
# Generating and checking outputs

`generate` writes every planned output and runs formatters once all are written. With
`check` it writes none of them and compares each with its file ; an output that has a
formatter is compared as the formatter leaves a scratch copy of it.

What a command wrote and printed before it failed stays, so a `Job` returns the session
also when it fails.
-/

namespace SettingsCompiler

/-- The files, and what was printed so far. -/
structure Session where
  files : Workspace
  printed : String
deriving DecidableEq, Repr

/-- A computation that changes files and prints, and may fail. -/
abbrev Job (α : Type) := ExceptT Failure (StateM Session) α

namespace Job

variable {α : Type}

/-- The outcome and the session left behind. -/
def runFrom (t : Job α) (s : Session) : Except Failure α × Session :=
  (ExceptT.run t).run s

/-- A result that reads files and changes none. -/
def ofFiles (read : Workspace → Except Failure α) : Job α :=
  ExceptT.mk fun s => (read s.files, s)

/-- A change of files. -/
def change (change : Workspace → Except Failure Workspace) : Job Unit :=
  ExceptT.mk fun s => match change s.files with
    | .ok files => (.ok (), { s with files })
    | .error e => (.error e, s)

/-- A change of files that may stop on the way. -/
def advance (change : Workspace → Except Failure Unit × Workspace) : Job Unit :=
  ExceptT.mk fun s => ((change s.files).1, { s with files := (change s.files).2 })

/-- Print a text. -/
def say (text : String) : Job Unit :=
  ExceptT.mk fun s => (.ok (), { s with printed := s.printed ++ text })

/-- A job, after which a location is removed whether the job succeeds or fails. -/
def removing (l : Location) (t : Job α) : Job α :=
  ExceptT.mk fun s =>
    let (outcome, s) := t.runFrom s
    (outcome, { s with files := s.files.erase l })

variable {β : Type}

@[simp] theorem runFrom_pure (a : α) (s : Session) : (pure a : Job α).runFrom s = (.ok a, s) :=
  rfl

@[simp] theorem runFrom_throw (f : Failure) (s : Session) :
    (throw f : Job α).runFrom s = (.error f, s) := rfl

theorem runFrom_bind (t : Job α) (next : α → Job β) (s : Session) :
    (t >>= next).runFrom s = match t.runFrom s with
      | (.ok a, s) => (next a).runFrom s
      | (.error f, s) => (.error f, s) := by
  simp only [runFrom, ExceptT.run_bind, StateT.run_bind]
  show (match (ExceptT.run t).run s with | (outcome, s) => _) = _
  rcases (ExceptT.run t).run s with ⟨outcome | a, s'⟩ <;> rfl

/-- A sequence succeeds if its first part does and its second does from what that left. -/
theorem runFrom_bind_ok {t : Job α} {next : α → Job β} {b : β} {s s' : Session} :
    (t >>= next).runFrom s = (.ok b, s') ↔
      ∃ a s₁, t.runFrom s = (.ok a, s₁) ∧ (next a).runFrom s₁ = (.ok b, s') := by
  rw [runFrom_bind]
  rcases t.runFrom s with ⟨f | a, s₁⟩
  · simp
  · constructor
    · exact fun h => ⟨a, s₁, rfl, h⟩
    · rintro ⟨a', s₁', h, hnext⟩
      simp only [Prod.mk.injEq, Except.ok.injEq] at h
      obtain ⟨rfl, rfl⟩ := h
      exact hnext

@[simp] theorem runFrom_ofFiles (read : Workspace → Except Failure α) (s : Session) :
    (ofFiles read).runFrom s = (read s.files, s) := rfl

@[simp] theorem runFrom_say (text : String) (s : Session) :
    (say text).runFrom s = (.ok (), { s with printed := s.printed ++ text }) := rfl

theorem runFrom_change (f : Workspace → Except Failure Workspace) (s : Session) :
    (change f).runFrom s = match f s.files with
      | .ok files => (.ok (), { s with files })
      | .error e => (.error e, s) := by
  show (match f s.files with
    | .ok files => ((.ok (), { s with files }) : Except Failure Unit × Session)
    | .error e => (.error e, s)) = _
  cases f s.files <;> rfl

@[simp] theorem runFrom_advance (f : Workspace → Except Failure Unit × Workspace) (s : Session) :
    (advance f).runFrom s = ((f s.files).1, { s with files := (f s.files).2 }) := rfl

theorem runFrom_removing (l : Location) (t : Job α) (s : Session) :
    (removing l t).runFrom s =
      ((t.runFrom s).1, { (t.runFrom s).2 with files := (t.runFrom s).2.files.erase l }) := rfl

end Job

/-! ## Formatters -/

/-- Run a formatter on a file. -/
def runFormatter (formatter : List String) (path : String) : Job Unit :=
  match formatter with
  | [] => throw ⟨[], .emptyFormatter⟩
  | program :: args => do
    let outcome ← Job.ofFiles fun w =>
      Failure.within (.startingFormatter program) .os
        (Shell.runProgram w program (args ++ [path]))
    Job.change fun _ => .ok outcome.files
    Job.say outcome.printed
    if !outcome.ending.isSuccess then
      throw ⟨[], .formatterFailed program path outcome.ending⟩

namespace Output

/-! ## Writing -/

/-- Write an output, in a directory that is made where it is missing. -/
def write (o : Output) : Job Unit := do
  match Path.parent? o.path with
  | none => pure ()
  | some parent =>
    Job.advance fun w =>
      (w.makeDirectories parent).map (Failure.within (.creating parent) .os) id
  Job.change fun w => Failure.within (.writing o.path) .os (w.write o.path o.contents)
  Job.say ("OK: wrote " ++ o.path ++ "\n")

/-- Write outputs. -/
def writeAll : List Output → Job Unit
  | [] => pure ()
  | o :: os => do
    o.write
    writeAll os

/-- Run the formatters of outputs on their files. -/
def formatAll : List Output → Job Unit
  | [] => pure ()
  | o :: os => do
    match o.formatter with
    | some formatter => runFormatter formatter o.path
    | none => pure ()
    formatAll os

/-! ## Checking -/

/-- The directory of an output, as it is named for a file beside it. -/
def directory (o : Output) : String :=
  match Path.parent? o.path with
  | none | some "" => "."
  | some parent => parent

/-- A name for a scratch file beside an output, with its extension. -/
def scratchName (o : Output) (n : Nat) : String :=
  Path.join o.directory (".setgen-check-" ++ toString n ++ Path.extension o.path)

/-- A scratch file beside an output that is not there yet, and its location. -/
def scratch (o : Output) (w : Workspace) : Except OsError (String × Location) :=
  let names := (List.range (w.entries.length + 1)).map o.scratchName
  let isFree (name : String) : Bool := match w.target name with
    | .ok l => (w.find? l).isNone
    | .error _ => false
  let name := (names.find? isFree).getD (o.scratchName 0)
  (w.target name).map fun l => (name, l)

/-- The contents of an output as a formatter leaves them in a scratch file. -/
def formatted (o : Output) (formatter : List String) : Job String := do
  let (name, l) ← Job.ofFiles fun w =>
    Failure.within (.creatingScratch o.directory) .os (o.scratch w)
  Job.removing l do
    Job.change fun w => Failure.within (.writing name) .os (w.write name o.contents)
    runFormatter formatter name
    Job.ofFiles fun w => Failure.within (.reading name) .os (w.read name)

/-- What an output should hold, given whether formatters are run. -/
def expected (o : Output) (format : Bool) : Job String :=
  match format, o.formatter with
  | true, some formatter => o.formatted formatter
  | _, _ => pure o.contents

/-- Whether an output is what its file holds, with a line that says so. -/
def check (o : Output) (format : Bool) : Job Bool := do
  let contents ← o.expected format
  let existing ← Job.ofFiles fun w => .ok (w.read o.path)
  match existing with
  | .ok existing =>
    if existing = contents then
      Job.say ("OK: " ++ o.path ++ " is up to date\n")
      return true
    else
      Job.say ("FAIL: " ++ o.path ++ " is outdated\n")
      return false
  | .error _ =>
    Job.say ("FAIL: " ++ o.path ++ " does not exist\n")
    return false

/-- Whether all outputs are what their files hold. -/
def checkAll (format : Bool) : List Output → Job Bool
  | [] => pure true
  | o :: os => do
    let here ← o.check format
    let rest ← checkAll format os
    return here && rest

end Output

/-! ## The command -/

/-- What is asked of `generate`. -/
structure GenerateOptions where
  check : Bool
  version : Option String
  wrapWidth : Option Nat
  format : Bool
deriving DecidableEq, Repr

/-- A configuration with the version and the width that were asked for. -/
def GenerateOptions.apply (o : GenerateOptions) (c : Config) : Config :=
  { c with
    version := o.version.getD c.version
    wrapWidth := o.wrapWidth.getD c.wrapWidth }

/-- Write the outputs of a configuration, or check them. The code is `0` on success and
`1` if a check finds an output that is not what its file holds. -/
def generate (options : GenerateOptions) (config : String) : Job Nat := do
  let outputs ← Job.ofFiles fun w => do
    let c ← Config.load w config
    (options.apply c).plan w
  if options.check then
    let upToDate ← Output.checkAll options.format outputs
    return if upToDate then 0 else 1
  else
    Output.writeAll outputs
    if options.format then Output.formatAll outputs
    return 0

end SettingsCompiler
