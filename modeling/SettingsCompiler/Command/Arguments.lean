import SettingsCompiler.Text.Digits

/-!
# Arguments of a command line

A level of a command line is a list of arguments that are read with one set of options :
the arguments before the name of a command, and those behind it. An argument that starts
with a hyphen is an option, unless it is a hyphen alone or stands behind a bare `--` ; any
other is an operand. An option may be repeated only if it is counted.
-/

namespace SettingsCompiler.Arguments

/-! ## Arguments -/

/-- An argument as it is written. -/
inductive Argument
  /-- An option with a long name and what stands behind its equals sign. -/
  | long (name : String) (value : Option String)
  /-- Options with names of one letter. -/
  | letters (names : List Char)
  /-- The mark behind which all arguments are operands. -/
  | mark
  | operand
deriving DecidableEq, Repr

/-- How an argument is written. -/
def Argument.ofString (s : String) : Argument :=
  match s.toList with
  | ['-', '-'] => mark
  | '-' :: '-' :: cs =>
    let name := cs.takeWhile (· ≠ '=')
    let value := match cs.dropWhile (· ≠ '=') with
      | _ :: value => some (String.ofList value)
      | [] => none
    long (String.ofList name) value
  | '-' :: c :: cs => letters (c :: cs)
  | _ => operand

/-! ## Options -/

/-- What an option does. -/
inductive Effect
  | flag
  /-- A flag that may be repeated. -/
  | count
  /-- An option with a value of some form. -/
  | value (accepts : String → Bool)
  /-- A request that leaves the rest of the line unread. -/
  | request

/-- An option : its long name, its letter if it has one, and what it does. -/
structure Switch where
  name : String
  letter : Option Char
  effect : Effect

/-- An option that was given, with its value if it takes one. -/
structure Given where
  name : String
  value : String
deriving DecidableEq, Repr

/-- Whether an option was given. -/
def isGiven (name : String) (given : List Given) : Bool :=
  given.any (·.name = name)

/-- The value that an option was given. -/
def valueOf? (name : String) (given : List Given) : Option String :=
  (given.find? (·.name = name)).map (·.value)

/-! ## Levels -/

/-- The result of reading a level. -/
inductive Level
  /-- The line asks for something at once. -/
  | request (name : String)
  /-- The options and operands of the whole level. -/
  | whole (given : List Given) (operands : List String)
  /-- The options before an operand that opens the next level. -/
  | opens (given : List Given) (command : String) (rest : List String)
deriving DecidableEq, Repr

/-- How a level is read : its options, which operands are accepted behind others, and
whether an operand opens the next level. -/
structure Form where
  switches : List Switch
  accepts : List String → String → Bool
  opens : Bool

/-- The options given once a switch without a value is met ; a request ends the level. -/
def meet (s : Switch) (given : List Given) : Option (List Given) :=
  match s.effect with
  | .flag => if isGiven s.name given then none else some (given ++ [⟨s.name, ""⟩])
  | .count => some (given ++ [⟨s.name, ""⟩])
  | .value _ | .request => none

/-- Options given by their letters, or the name of a request among them. -/
def readLetters (switches : List Switch) (given : List Given) :
    List Char → Option (Except String (List Given))
  | [] => some (.ok given)
  | c :: cs =>
    match switches.find? (·.letter = some c) with
    | none => none
    | some s => match s.effect with
      | .request => some (.error s.name)
      | _ => (meet s given).bind fun given => readLetters switches given cs

/-- Read a level behind what it has given so far ; nothing if the arguments do not have
its form. -/
def Form.read (f : Form) (given : List Given) (operands : List String) (onlyOperands : Bool) :
    List String → Option Level
  | [] => some (.whole given operands)
  | arg :: args =>
    let operand : Option Level :=
      if f.opens then
        if onlyOperands then none else some (.opens given arg args)
      else if f.accepts operands arg then f.read given (operands ++ [arg]) onlyOperands args
      else none
    if onlyOperands then operand
    else match Argument.ofString arg with
    | .operand => operand
    | .mark => f.read given operands true args
    | .letters names =>
      match readLetters f.switches given names with
      | none => none
      | some (.error request) => some (.request request)
      | some (.ok given) => f.read given operands false args
    | .long name attached =>
      match f.switches.find? (·.name = name) with
      | none => none
      | some s => match s.effect, attached with
        | .request, none => some (.request s.name)
        | .value accepts, some value =>
          if isGiven s.name given || !accepts value then none
          else f.read (given ++ [⟨s.name, value⟩]) operands false args
        | .value accepts, none =>
          match args with
          | [] => none
          | value :: args =>
            if isGiven s.name given || !accepts value || Argument.ofString value ≠ .operand
            then none
            else f.read (given ++ [⟨s.name, value⟩]) operands false args
        | _, none => (meet s given).bind fun given => f.read given operands false args
        | _, some _ => none

/-! ## Values -/

/-- A whole number of at most 64 bits, with or without a plus sign. -/
def count? (s : String) : Option Nat :=
  let digits := match s.toList with
    | '+' :: cs => cs
    | cs => cs
  (Text.digits? 10 digits).filter (· < UInt64.size)

end SettingsCompiler.Arguments
