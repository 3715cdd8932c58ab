import SettingsCompiler.Workspace.Basic

/-!
# Calls of utilities

A utility is a program that a script calls. It gets arguments, a text to read, and files
below a working directory, and it leaves a status, what it printed, and the files.

Utilities stand for programs that a formatter may be or run. No theorem is about them.
-/

namespace SettingsCompiler.Shell

/-- A call of a utility. -/
structure Call where
  name : String
  args : List String
  input : String
  files : Workspace
  directory : String

/-- What a utility leaves. -/
structure Reply where
  status : Nat
  printed : String
  complaints : String
  files : Workspace
  /-- What is left of the text to read. -/
  input : String

namespace Call

/-- A path as it is seen from the first working directory. -/
def path (c : Call) (file : String) : String :=
  if file = "" then "" else Path.join c.directory file

/-- A reply that changes no files. -/
def reply (c : Call) (status : Nat) (printed : String) : Reply :=
  ⟨status, printed, "", c.files, c.input⟩

/-- A reply that says what is wrong. -/
def fail (c : Call) (status : Nat) (message : String) : Reply :=
  ⟨status, "", c.name ++ ": " ++ message ++ "\n", c.files, c.input⟩

/-- The text of a file, or the text to read for a dash. -/
def read (c : Call) (file : String) : Except OsError String :=
  if file = "-" then .ok c.input else c.files.read (c.path file)

/-- The texts of files, or the text to read if there are none. -/
def inputs (c : Call) (files : List String) : List (String × Except OsError String) :=
  (if files.isEmpty then ["-"] else files).map fun f => (f, c.read f)

/-- A reply made from the texts of files, one after the other. -/
def overFiles (c : Call) (files : List String) (write : String → String → String) : Reply :=
  (c.inputs files).foldl (fun r (file, text) => match text with
    | .ok s => { r with printed := r.printed ++ write file s }
    | .error e => { r with
        status := 1
        complaints := r.complaints ++ c.name ++ ": " ++ file ++ ": " ++ e.reason ++ "\n" })
    { c.reply 0 "" with input := if files.isEmpty || files.contains "-" then "" else c.input }

/-- All the text of files, and the reply if some of them cannot be read. -/
def allText (c : Call) (files : List String) : Except Reply String :=
  let r := c.overFiles files fun _ s => s
  if r.status = 0 then .ok r.printed else .error { r with printed := "", status := 2 }

end Call

/-! ## Options -/

/-- The options in a cluster of letters, and one at its end that has no value yet. -/
def cluster? (flags valued : String) : List Char → Option (List (Char × String) × Option Char)
  | [] => some ([], none)
  | c :: cs =>
    if valued.contains c then
      if cs.isEmpty then some ([], some c) else some ([(c, String.ofList cs)], none)
    else if flags.contains c then
      (cluster? flags valued cs).map fun (more, last) => ((c, "") :: more, last)
    else none

/-- The options among arguments, and the operands ; none if an option is not known. -/
def options? (flags valued : String) : List String → Option (List (Char × String) × List String)
  | [] => some ([], [])
  | arg :: rest =>
    match arg.toList with
    | ['-', '-'] => some ([], rest)
    | '-' :: c :: cs =>
      match cluster? flags valued (c :: cs), rest with
      | some (found, none), rest =>
        (options? flags valued rest).map fun (more, operands) => (found ++ more, operands)
      | some (found, some last), value :: rest =>
        (options? flags valued rest).map fun (more, operands) =>
          (found ++ (last, value) :: more, operands)
      | _, _ => none
    | _ => (options? flags valued rest).map fun (more, operands) => (more, arg :: operands)

/-- Options by their letters. -/
abbrev Options := List (Char × String)

/-- Whether a flag is among options. -/
def Options.has (os : Options) (c : Char) : Bool := os.any fun o => o.1 = c

/-- The last value of an option. -/
def Options.value? (os : Options) (c : Char) : Option String := os.reverse.lookup c

end SettingsCompiler.Shell
