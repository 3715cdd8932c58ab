import SettingsCompiler.Shell.Bytes
import SettingsCompiler.Shell.Evaluate

/-!
# Running programs

`runProgram` runs a program by its name : the shell, or one of the utilities. What the
program prints is kept, what it complains of is not. The program sees arguments and files
as bytes.

A configuration may name any program as a formatter, and no such program is part of the compiler.
The modules of this folder stand for those that are likely : the shell `sh` with its scripts, and
the usual utilities on texts and files, in the `C` locale. They follow the documented behaviour of
these programs, so that `generate` can be run as a whole. No theorem is about them : results on
generating are about commands that run no formatter. Any other program is taken to be missing.
-/

namespace SettingsCompiler.Shell

/-- What a program leaves. -/
structure Outcome where
  ending : Ending
  files : Workspace
  printed : String
deriving DecidableEq, Repr

/-- How many steps deep a script may go. -/
def stepLimit : Nat := 100000

/-- The outcome of a program that saw bytes. -/
def Outcome.ofBytes (o : Outcome) : Outcome := ⟨o.ending, o.files.ofBytes, Text.decoded o.printed⟩

/-- Run the shell. A script that goes too deep ends as one that uses too much time. -/
def runShellProgram (w : Workspace) (args : List String) : Outcome :=
  let (flow, s) := (caught (runShell stepLimit args)).run.run (.start w ["sh"])
  let ending : Ending := match flow with
    | .ok (some (.killed signal)) => .killed signal
    | .ok (some .stuck) | .error _ => .killed 24
    | .ok _ => .exited s.status
  ⟨ending, s.files, s.buffers.getD State.printedBuffer ""⟩

/-- Why a program that is none of those known cannot be run. -/
def missing (w : Workspace) (program : String) : OsError :=
  if program.contains '/' then
    match w.locate program with
    | .ok l => if (w.find? l).isSome then .notPermitted else .notFound
    | .error e => e
  else if Workspace.nameLimit < program.utf8ByteSize then .nameTooLong
  else .notFound

/-- Run a program with its arguments. -/
def runProgram (w : Workspace) (program : String) (args : List String) :
    Except OsError Outcome :=
  if (program :: args).any fun a => a.contains '\x00' then .error .zeroInArgument
  else if isShell program then
    .ok (runShellProgram w.bytes (args.map Text.bytes)).ofBytes
  else match programName? program >>= utility? with
    | some run =>
      let r := run ⟨lastPart program, args.map Text.bytes, "", w.bytes, ""⟩
      .ok (Outcome.ofBytes ⟨.exited r.status, r.files, r.printed⟩)
    | none => .error (missing w program)

end SettingsCompiler.Shell
