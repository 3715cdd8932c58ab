import SettingsCompiler.Text.Blank
import SettingsCompiler.Text.Lines

/-!
# Paths as they are written

A path stays the text that it was written as, since messages show it. Its parts stand
between slashes ; an empty part and a part of one dot say nothing, except for the first.
`parent?` and `join` only cut and put together, so a path through `..` keeps it.
-/

namespace SettingsCompiler.Path

/-- The parts of a path between slashes. -/
def parts (path : String) : List String :=
  (Text.pieces (· = '/') path.toList).map String.ofList

/-- Whether a path starts at the root of all files. -/
def isAbsolute (path : String) : Bool :=
  path.toList.head? = some '/'

/-- Whether a path ends in a slash. -/
def endsInSlash (path : String) : Bool :=
  path.toList.getLast? = some '/'

/-- Whether a part says nothing. -/
def isIdle (part : String) : Bool :=
  part = "" || part = "."

/-- The parts, the last first, without those at the end that say nothing. -/
def dropIdle : List String → List String
  | [] => []
  | [first] => [first]
  | part :: rest => if isIdle part then dropIdle rest else part :: rest

/-- The path of parts, the last first. -/
def ofReversed (absolute : Bool) (parts : List String) : String :=
  match parts with
  | [""] => if absolute then "/" else ""
  | parts => Text.joinWith "/" parts.reverse

/-- The directory of a path, if its last part is not the start itself. -/
def parent? (path : String) : Option String :=
  match dropIdle (parts path).reverse with
  | [] => none
  | [""] => none
  | _ :: rest => some (ofReversed (isAbsolute path) (dropIdle rest))

/-- A path from a directory on. -/
def join (base path : String) : String :=
  if isAbsolute path then path
  else if base = "" || endsInSlash base then base ++ path
  else base ++ "/" ++ path

/-- The dot and what follows it in the last part of a path, unless the part starts with
its only dot. -/
def extension (path : String) : String :=
  match dropIdle (parts path).reverse with
  | part :: _ =>
    let cs := part.toList.reverse
    let ext := cs.takeWhile (· ≠ '.')
    if ext.length + 1 < cs.length && part ≠ ".." then "." ++ String.ofList ext.reverse else ""
  | [] => ""

end SettingsCompiler.Path
