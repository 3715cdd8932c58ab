import SettingsCompiler.Command.Arguments
import SettingsCompiler.Command.Generate
import SettingsCompiler.Command.Inspect

/-!
# The command line

`Invocation.ofArguments?` reads what a command line asks for, and `Invocation.job` does
it. The options that every command knows may stand before and behind its name ; of two
configurations the one behind it counts.
-/

namespace SettingsCompiler

open Arguments

/-- What a command line asks for. -/
inductive Invocation
  | version
  | help
  | generate (options : GenerateOptions) (config : String)
  | inspect (stage : Stage) (pretty : Bool) (config : String)
deriving DecidableEq, Repr

namespace Invocation

/-! ## The options -/

/-- The configuration unless another is named. -/
def defaultConfig : String := "setgen.yaml"

/-- The options that may stand on both sides of the name of a command. -/
def sharedSwitches : List Switch := [
  ⟨"verbose", some 'v', .count⟩,
  ⟨"log-json", none, .flag⟩,
  ⟨"config", none, .value (· ≠ "")⟩,
  ⟨"help", some 'h', .request⟩]

/-- The form of the arguments up to the name of a command. -/
def lineForm : Form where
  switches := sharedSwitches ++ [⟨"version", some 'V', .request⟩]
  accepts _ _ := false
  opens := true

/-- The form of the arguments of `gen`. -/
def generateForm : Form where
  switches := sharedSwitches ++ [
    ⟨"check", none, .flag⟩,
    ⟨"doc-version", none, .value fun _ => true⟩,
    ⟨"wrap-width", none, .value fun s => (count? s).isSome⟩,
    ⟨"no-format", none, .flag⟩]
  accepts _ _ := false
  opens := false

/-- The form of the arguments of `inspect`. -/
def inspectForm : Form where
  switches := sharedSwitches ++ [⟨"pretty", none, .flag⟩]
  accepts before s := before.isEmpty && (Stage.ofName? s).isSome
  opens := false

/-! ## Reading a command line -/

/-- The configuration that the options before and behind a command name. -/
def configOf (before behind : List Given) : String :=
  match valueOf? "config" behind with
  | some path => path
  | none => (valueOf? "config" before).getD defaultConfig

/-- The request of a name. -/
def ofRequest (name : String) : Invocation :=
  if name = "version" then version else help

/-- What a command with its arguments asks for, given the options before it. -/
def ofCommand? (before : List Given) (command : String) (args : List String) :
    Option Invocation :=
  match command with
  | "gen" =>
    match generateForm.read [] [] false args with
    | some (.whole given _) =>
      let options : GenerateOptions := {
        check := isGiven "check" given
        version := valueOf? "doc-version" given
        wrapWidth := (valueOf? "wrap-width" given).bind count?
        format := !isGiven "no-format" given }
      some (generate options (configOf before given))
    | some (.request name) => some (ofRequest name)
    | _ => none
  | "inspect" =>
    match inspectForm.read [] [] false args with
    | some (.whole given operands) =>
      let stage := (operands.head?.bind Stage.ofName?).getD .schema
      some (inspect stage (isGiven "pretty" given) (configOf before given))
    | some (.request name) => some (ofRequest name)
    | _ => none
  | "help" =>
    match args with
    | [] | ["gen"] | ["inspect"] | ["help"] => some help
    | _ => none
  | _ => none

/-- What a command line asks for ; nothing if it has no meaning. -/
def ofArguments? (args : List String) : Option Invocation :=
  match lineForm.read [] [] false args with
  | some (.request name) => some (ofRequest name)
  | some (.opens before command rest) => ofCommand? before command rest
  | _ => none

/-! ## Doing what is asked -/

/-- The text that says what the commands are. -/
def usage : String := Text.unlines [
  "Usage: setgen [OPTIONS] <COMMAND>",
  "",
  "Commands:",
  "  gen      Generate (or with --check, verify) every configured output",
  "  inspect  Dump the loaded schema or compiled IR as JSON",
  "  help     Print this message",
  "",
  "Options:",
  "  -v, --verbose          Enable verbose output",
  "      --log-json         Emit logs as JSON lines",
  "      --config <CONFIG>  Path to configuration file [default: setgen.yaml]",
  "  -h, --help             Print help",
  "  -V, --version          Print version"]

/-- The configuration that an invocation reads, if it reads one. -/
def config? : Invocation → Option String
  | generate _ config | inspect _ _ config => some config
  | version | help => none

/-- The work of an invocation, with its code. -/
def job : Invocation → Job Nat
  | version => do
    Job.say "setgen 0.1.0\n"
    return 0
  | help => do
    Job.say usage
    return 0
  | generate options config => SettingsCompiler.generate options config
  | inspect stage pretty config => do
    let text ← Job.ofFiles fun w => SettingsCompiler.inspect stage pretty w config
    Job.say (text ++ "\n")
    return 0

end Invocation

/-- How a command line ends : its code, the files and what was printed, and the failure
if there is one. -/
structure Outcome where
  code : Nat
  session : Session
  failure : Option Failure

/-- The code of a failure, and of a command line without a meaning. -/
def failureCode : Nat := 2

/-- Run a command line. -/
def runArguments (args : List String) (w : Workspace) : Outcome :=
  match Invocation.ofArguments? args with
  | none => ⟨failureCode, ⟨w, ""⟩, none⟩
  | some invocation => match invocation.job.runFrom ⟨w, ""⟩ with
    | (.ok code, s) => ⟨code, s, none⟩
    | (.error f, s) => ⟨failureCode, s, some f⟩

end SettingsCompiler
