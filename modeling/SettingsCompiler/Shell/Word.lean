import SettingsCompiler.Shell.State

/-!
# From words to arguments

What the parts of a word stand for is a list of pieces. Pieces that are not quoted may be
split into several fields, and a field with a pattern in it stands for the names of files
that the pattern matches.

Expansion stands for that of `sh`, a formatter that a configuration may name. No theorem is about
it.
-/

namespace SettingsCompiler.Shell

/-- A piece of an expanded word. -/
inductive Piece
  /-- A character ; `splits` says whether it may separate fields. -/
  | char (c : Char) (quoted splits : Bool)
  /-- Quotes were there, so there is a field even if it is empty. -/
  | presence
  /-- The list of all arguments was there and had none, so there is no field. -/
  | absence
  /-- The next field begins. -/
  | next
deriving DecidableEq, Repr

/-- A field : its characters, each with whether it is quoted. -/
abbrev Field := List (Char × Bool)

namespace Piece

/-- The pieces of a text. -/
def ofText (quoted splits : Bool) (cs : List Char) : List Piece :=
  cs.map fun c => .char c quoted splits

/-- Pieces that may separate fields where they are not quoted. -/
def splitting (ps : List Piece) : List Piece :=
  ps.map fun
    | .char c false _ => .char c false true
    | p => p

/-- The characters of pieces, each with whether it is quoted. -/
def chars (ps : List Piece) : Field :=
  ps.filterMap fun
    | .char c quoted _ => some (c, quoted)
    | .next => some (' ', true)
    | _ => none

/-- The text of pieces. -/
def text (ps : List Piece) : String := String.ofList ((chars ps).map Prod.fst)

/-- Fields under way, the last first, the one that has begun, and whether blanks ended
the one before. -/
structure Splitting where
  done : List Field
  current : Option Field
  afterBlank : Bool

/-- The next piece. -/
def Splitting.step (separators : List Char) (s : Splitting) : Piece → Splitting
  | .presence => { s with current := some (s.current.getD []), afterBlank := false }
  | .absence => s
  | .next =>
    { done := (s.current.map List.reverse).toList ++ s.done, current := some [],
      afterBlank := false }
  | .char c quoted splits =>
    if splits && !quoted && separators.contains c then
      if isBlank c || c = '\n' then
        match s.current with
        | some f => { done := f.reverse :: s.done, current := none, afterBlank := true }
        | none => s
      else match s.current, s.afterBlank with
        | none, true => { s with afterBlank := false }
        | f, _ => { done := (f.getD []).reverse :: s.done, current := none, afterBlank := false }
    else { s with current := some ((c, quoted) :: s.current.getD []), afterBlank := false }

/-- The fields of pieces. -/
def fields (separators : List Char) (ps : List Piece) : List Field :=
  let s := ps.foldl (Splitting.step separators) ⟨[], none, false⟩
  let all := ((s.current.map List.reverse).toList ++ s.done).reverse
  if ps.contains .absence && all.all List.isEmpty then [] else all

end Piece

/-! ## Names of files -/

/-- The text of a field. -/
def Field.text (f : Field) : String := String.ofList (f.map Prod.fst)

/-- The parts of a field between slashes. -/
def Field.parts (f : Field) : List Field := f.splitOnP fun c => c.1 = '/'

/-- The paths that begin with `front` and go on as the parts of a field say. -/
def pathsFrom (w : Workspace) (base : String) (front : String) : List Field → List String
  | [] => [front]
  | part :: parts =>
    let pattern := Pattern.ofChars part
    let separator := if parts.isEmpty then "" else "/"
    let path (s : String) : String := if s = "" then base else Path.join base s
    if pattern.isProper then
      let names := match w.locate (if path front = "" then "." else path front) with
        | .ok l => match w.find? l with
          | some .directory => namesIn w l
          | _ => []
        | .error _ => []
      let names := names.filter fun n =>
        pattern.accepts n.toList && (!n.startsWith "." || (part.head?.map Prod.fst) = some '.')
      names.flatMap fun n =>
        let next := front ++ n
        if parts.isEmpty then [next]
        else if w.isDirectory (path next) then pathsFrom w base (next ++ separator) parts else []
    else
      let next := front ++ part.text
      if parts.isEmpty then
        if part.isEmpty then [next]
        else match w.locate (path next) with
          | .ok l => if (w.find? l).isSome then [next] else []
          | .error _ => []
      else pathsFrom w base (next ++ separator) parts

/-- The arguments that a field stands for. -/
def Field.arguments (s : State) (f : Field) : List String :=
  if s.has 'f' || !(Pattern.ofChars f).isProper then [f.text]
  else match pathsFrom s.files s.directory "" f.parts with
    | [] => [f.text]
    | paths => paths

/-- The arguments that pieces stand for. -/
def Piece.arguments (s : State) (ps : List Piece) : List String :=
  (fields s.separators ps).flatMap (Field.arguments s)

end SettingsCompiler.Shell
