import SettingsCompiler.Shell.Files
import SettingsCompiler.Shell.Pattern
import SettingsCompiler.Workspace.Ending

/-!
# Scripts under way

What a running script can see and change : files, variables, functions, arguments, and
the channels behind its descriptors. A script prints to buffers and to files, and reads
texts that are used up as they are read. What it does may end early, as a `Flow` says ;
the state is kept then.

This is the state of `sh` while it runs as a formatter. No theorem is about it.
-/

namespace SettingsCompiler.Shell

/-- Where a descriptor writes to or reads from. -/
inductive Channel
  | buffer (n : Nat)
  /-- The end of a file. -/
  | file (path : String)
  | input (n : Nat)
deriving DecidableEq, Repr

/-- A running script. -/
structure State where
  files : Workspace
  /-- The working directory, as it is seen from the first one. -/
  directory : String
  bindings : List (String × String)
  /-- Variables that other programs get. -/
  exported : List String
  /-- Variables that keep their values. -/
  fixed : List String
  functions : List (String × Command)
  /-- The name of the script and its arguments. -/
  args : List String
  status : Nat
  /-- The status of the last commands whose output became part of a word. -/
  outputStatus : Nat
  /-- The status of the last command that ran in the background. -/
  backgroundStatus : Nat
  descriptors : List (Nat × Channel)
  buffers : List String
  inputs : List String
  documents : List Word
  /-- Letters of the options that are on. -/
  options : List Char
  /-- What is run at the end, which has the number zero, and when a signal arrives. -/
  traps : List (Nat × String)
  /-- What is to be run for signals that arrived. -/
  pending : List String
  /-- Whether this is a part of a script that runs on its own. -/
  inner : Bool
  /-- How many loops are under way. -/
  loops : Nat
  /-- For each function under way, the variables that are its own with the values they
  had. -/
  locals : List (List (String × Option String))

/-- Why a script does not go on with the next command. -/
inductive Flow
  | exit
  | returned
  | broke (levels : Nat)
  | continued (levels : Nat)
  | killed (signal : Nat)
  /-- It takes more steps than there are. -/
  | stuck
deriving DecidableEq, Repr

/-- A part of a run. -/
abbrev Run (α : Type) := ExceptT Flow (StateM State) α

namespace State

/-- The number of the script among all that run. -/
def ownNumber : String := "1000"

/-- The number of a command that ran in the background. -/
def backgroundNumber : String := "1001"

/-- The buffer for what a script prints. -/
def printedBuffer : Nat := 0

/-- The buffer for what a script complains of. -/
def complaintsBuffer : Nat := 1

/-- A script at its start. -/
def start (files : Workspace) (args : List String) : State where
  files
  directory := ""
  bindings := []
  exported := []
  fixed := []
  functions := []
  args
  status := 0
  outputStatus := 0
  backgroundStatus := 0
  descriptors := [(0, .input 0), (1, .buffer printedBuffer), (2, .buffer complaintsBuffer)]
  buffers := ["", ""]
  inputs := [""]
  documents := []
  options := []
  traps := []
  pending := []
  inner := false
  loops := 0
  locals := []

/-! ## Parameters -/

/-- Whether an option is on. -/
def has (s : State) (option : Char) : Bool := s.options.contains option

/-- The value of a parameter, if it is set. -/
def parameter? (s : State) (name : String) : Option String :=
  match name with
  | "#" => some (toString (s.args.length - 1))
  | "?" => some (toString s.status)
  | "$" => some ownNumber
  | "-" => some (String.ofList s.options)
  | "!" => some backgroundNumber
  | "@" | "*" => if s.args.length ≤ 1 then none else some (Text.joinWith " " s.args.tail)
  | name => match name.toNat? with
    | some n => s.args[n]?
    | none => s.bindings.lookup name

/-- Another value of a variable. -/
def assign (s : State) (name value : String) : State :=
  { s with
    bindings := (name, value) :: s.bindings.filter fun v => v.1 ≠ name
    exported := if s.has 'a' then name :: s.exported else s.exported }

/-- A variable that is not set any more. -/
def unassign (s : State) (name : String) : State :=
  { s with
    bindings := s.bindings.filter fun v => v.1 ≠ name
    exported := s.exported.filter (· ≠ name) }

/-- The value that a variable had, or none. -/
def restore (s : State) (old : String × Option String) : State :=
  match old.2 with
  | some value => s.assign old.1 value
  | none => s.unassign old.1

/-- The characters that split words. -/
def separators (s : State) : List Char :=
  match s.bindings.lookup "IFS" with
  | some cs => cs.toList
  | none => [' ', '\t', '\n']

/-! ## Channels -/

/-- A path as it is seen from the first working directory. -/
def path (s : State) (file : String) : String :=
  if file = "" then "" else Path.join s.directory file

/-- A file with a text behind its contents. -/
def appended (w : Workspace) (path text : String) : Except OsError Workspace :=
  match w.read path with
  | .ok old => w.write path (old ++ text)
  | .error .notFound => w.write path text
  | .error e => .error e

/-- Print a text to a descriptor. A file that cannot be written takes nothing. -/
def print (s : State) (descriptor : Nat) (text : String) : State :=
  if text = "" then s
  else match s.descriptors.lookup descriptor with
    | some (.buffer n) => { s with buffers := s.buffers.modify n (· ++ text) }
    | some (.file path) => match appended s.files path text with
      | .ok files => { s with files }
      | .error _ => s
    | _ => s

/-- The text that a descriptor reads. -/
def input (s : State) (descriptor : Nat) : String :=
  match s.descriptors.lookup descriptor with
  | some (.input n) => (s.inputs[n]?).getD ""
  | _ => ""

/-- What is left of the text that a descriptor reads. -/
def leave (s : State) (descriptor : Nat) (rest : String) : State :=
  match s.descriptors.lookup descriptor with
  | some (.input n) => { s with inputs := s.inputs.set n rest }
  | _ => s

/-- A descriptor with another channel. -/
def connect (s : State) (descriptor : Nat) (channel : Channel) : State :=
  { s with descriptors := (descriptor, channel) :: s.descriptors.filter fun d =>
      d.1 ≠ descriptor }

/-- A descriptor without a channel. -/
def disconnect (s : State) (descriptor : Nat) : State :=
  { s with descriptors := s.descriptors.filter fun d => d.1 ≠ descriptor }

/-- A descriptor that reads a text. -/
def feed (s : State) (descriptor : Nat) (text : String) : State :=
  { s.connect descriptor (.input s.inputs.length) with inputs := s.inputs ++ [text] }

/-- A complaint of the script itself. -/
def complain (s : State) (message : String) : State :=
  s.print 2 (s.args.headD "" ++ ": 1: " ++ message ++ "\n")

/-- A part of a script that runs on its own. What is run at the end of the script is not
run at the end of the part. -/
def part (s : State) : State :=
  { s with traps := s.traps.filter fun t => t.1 ≠ 0, inner := true }

/-- What stays when a part of a script that ran on its own is over. -/
def afterPart (before after : State) : State :=
  { before with files := after.files, status := after.status, buffers := after.buffers,
                inputs := after.inputs, pending := after.pending }

/-- Another script with some arguments. It gets the exported variables. -/
def child (s : State) (args : List String) : State :=
  { s with
    bindings := s.bindings.filter fun v => s.exported.contains v.1
    fixed := [], functions := [], args, status := 0, options := [], traps := [], pending := []
    inner := false, loops := 0, locals := [] }

/-- A file for a descriptor to write to, emptied unless `append`. -/
def openOutput (s : State) (descriptor : Nat) (append : Bool) (file : String) :
    Except OsError State :=
  let path := s.path file
  match if append then appended s.files path "" else s.files.write path "" with
  | .ok files => .ok ({ s with files }.connect descriptor (.file path))
  | .error e => .error e

/-- A file for a descriptor to read. -/
def openInput (s : State) (descriptor : Nat) (file : String) : Except OsError State :=
  match s.files.read (s.path file) with
  | .ok text => .ok (s.feed descriptor text)
  | .error .isADirectory => .ok (s.feed descriptor "")
  | .error e => .error e

/-- A descriptor with the channel of another one, or with none for a dash. -/
def copyChannel (s : State) (descriptor : Nat) (source : String) : Option State :=
  if source = "-" then some (s.disconnect descriptor)
  else match source.toNat? with
    | some n => (s.descriptors.lookup n).map (s.connect descriptor)
    | none => none

end State

end SettingsCompiler.Shell
