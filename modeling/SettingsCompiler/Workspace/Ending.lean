/-!
# How a program ends

A program ends with a status, zero for success, or a signal ends it.
-/

namespace SettingsCompiler

/-- How a program ended. -/
inductive Ending
  | exited (status : Nat)
  | killed (signal : Nat)
deriving DecidableEq, Repr

namespace Ending

/-- The names of the signals, from the first on. -/
def signalNames : List String := [
    "HUP", "INT", "QUIT", "ILL", "TRAP", "ABRT", "BUS", "FPE", "KILL", "USR1", "SEGV", "USR2",
    "PIPE", "ALRM", "TERM", "STKFLT", "CHLD", "CONT", "STOP", "TSTP", "TTIN", "TTOU", "URG",
    "XCPU", "XFSZ", "VTALRM", "PROF", "WINCH", "IO", "PWR", "SYS"]

/-- The name of a signal, if it has one. -/
def signalName? (signal : Nat) : Option String :=
  if signal = 0 then none else signalNames[signal - 1]?

/-- The signal with a name. -/
def signal? (name : String) : Option Nat := (signalNames.idxOf? name).map (· + 1)

/-- Whether a program ended well. -/
def isSuccess : Ending → Bool
  | exited status => status == 0
  | killed _ => false

/-- How a message shows an ending. -/
def message : Ending → String
  | exited status => "exit status: " ++ toString status
  | killed signal =>
    let name := match signalName? signal with
      | some name => " (SIG" ++ name ++ ")"
      | none => ""
    "signal: " ++ toString signal ++ name

end Ending

end SettingsCompiler
