import SettingsCompiler.Workspace.Path

/-!
# Files and directories

A `Workspace` holds the files and directories below a working directory. A path is
followed part by part to a `Location`, the names from the working directory on, and each
part asks for a directory before it. Operations fail with the `OsError` that says why.

There are directories, files with contents, and files that stay empty whatever is written to
them, as the null device does. Links, permissions, other devices and limits of space are left
out, and no other program changes files meanwhile. So what is proved of all workspaces holds
for every system of directories, files and null devices that one command uses alone, and
nothing is said of other systems.

The view of a workspace is `find?` ; `find?_put` and `find?_erase` say what a change does
to it.
-/

namespace SettingsCompiler

/-- Why an operation on files fails. -/
inductive OsError
  | notFound
  | alreadyThere
  | notADirectory
  | isADirectory
  | notPermitted
  | nameTooLong
  /-- A path has a character zero. -/
  | zeroInPath
  /-- An argument of a program has a character zero. -/
  | zeroInArgument
  | notText
deriving DecidableEq, Repr

/-- What the system says of an error. -/
def OsError.reason : OsError → String
  | notFound => "No such file or directory"
  | alreadyThere => "File exists"
  | notADirectory => "Not a directory"
  | isADirectory => "Is a directory"
  | notPermitted => "Permission denied"
  | nameTooLong => "File name too long"
  | zeroInPath => "file name contained an unexpected NUL byte"
  | zeroInArgument => "nul byte found in provided data"
  | notText => "stream did not contain valid UTF-8"

/-- The number that the system has for an error. -/
def OsError.number? : OsError → Option Nat
  | notFound => some 2
  | alreadyThere => some 17
  | notADirectory => some 20
  | isADirectory => some 21
  | notPermitted => some 13
  | nameTooLong => some 36
  | zeroInPath | zeroInArgument | notText => none

/-- The text of an error. -/
def OsError.message (e : OsError) : String :=
  match e.number? with
  | some n => e.reason ++ " (os error " ++ toString n ++ ")"
  | none => e.reason

/-- What a file holds : a text, or bytes that encode none. -/
inductive Content
  | text (s : String)
  | binary (bytes : List UInt8)
deriving DecidableEq, Repr

/-- A file or a directory. -/
inductive Entry
  | file (content : Content)
  /-- A file that stays empty whatever is written to it. -/
  | null
  | directory
deriving DecidableEq, Repr

/-- Names from the working directory on. A first name `/` starts at the root of all files,
and names `..` lead out of the working directory. -/
abbrev Location := List String

/-- Files and directories by location. The working directory itself is always there. -/
structure Workspace where
  entries : List (Location × Entry)
deriving DecidableEq, Repr

namespace Workspace

/-- Nothing but the working directory. -/
def empty : Workspace := ⟨[]⟩

/-! ## Entries -/

/-- What is at a location. -/
def find? (w : Workspace) (l : Location) : Option Entry :=
  if l = [] then some .directory else w.entries.lookup l

/-- Entries with the one at a location replaced, or added behind the others. -/
def putEntry (l : Location) (e : Entry) : List (Location × Entry) → List (Location × Entry)
  | [] => [(l, e)]
  | (k, x) :: rest => if k = l then (l, e) :: rest else (k, x) :: putEntry l e rest

/-- The workspace with an entry at a location. -/
def put (w : Workspace) (l : Location) (e : Entry) : Workspace :=
  ⟨putEntry l e w.entries⟩

/-- The workspace without a location and all that is below it. -/
def erase (w : Workspace) (l : Location) : Workspace :=
  ⟨w.entries.filter fun e => !l.isPrefixOf e.1⟩

theorem lookup_putEntry (l k : Location) (e : Entry) :
    ∀ entries : List (Location × Entry),
      (putEntry l e entries).lookup k = if k = l then some e else entries.lookup k
  | [] => by
    by_cases h : k = l
    · simp [putEntry, h]
    · have hb : (k == l) = false := by simpa using h
      simp [putEntry, List.lookup_cons, hb, h]
  | (m, x) :: rest => by
    have ih := lookup_putEntry l k e rest
    unfold putEntry
    by_cases hm : m = l
    · subst hm
      by_cases h : k = m
      · simp [h]
      · have hb : (k == m) = false := by simpa using h
        simp [List.lookup_cons, hb, h]
    · by_cases h : k = m
      · subst h
        simp [hm]
      · have hb : (k == m) = false := by simpa using h
        simp [hm, List.lookup_cons, hb, ih]

theorem find?_put {w : Workspace} {l k : Location} {e : Entry} (hl : l ≠ []) :
    (w.put l e).find? k = if k = l then some e else w.find? k := by
  by_cases hk : k = []
  · subst hk
    simp [find?, Ne.symm hl]
  · simp [find?, put, lookup_putEntry, hk]

theorem lookup_filter_prefix (l k : Location) :
    ∀ entries : List (Location × Entry),
      (entries.filter fun e => !l.isPrefixOf e.1).lookup k =
        if l.isPrefixOf k then none else entries.lookup k
  | [] => by simp
  | (m, x) :: rest => by
    have ih := lookup_filter_prefix l k rest
    by_cases hk : k = m
    · subst hk
      cases hp : l.isPrefixOf k <;> simp [hp, ih]
    · have hb : (k == m) = false := by simpa using hk
      cases hp : l.isPrefixOf m <;> simp [hp, ih, List.lookup_cons, hb]

/-- The working directory stays whatever is erased. -/
theorem find?_erase {w : Workspace} {l k : Location} :
    (w.erase l).find? k = if k ≠ [] ∧ l.isPrefixOf k then none else w.find? k := by
  by_cases hk : k = []
  · simp [find?, hk]
  · simp only [find?, erase, hk, if_false, ne_eq, not_false_eq_true, true_and]
    exact lookup_filter_prefix l k w.entries

/-! ## Following a path -/

/-- The location around another. -/
def around (l : Location) : Location :=
  match l.reverse with
  | [] => [".."]
  | ["/"] => ["/"]
  | ".." :: _ => l ++ [".."]
  | _ => l.dropLast

/-- How many bytes a name may have. -/
def nameLimit : Nat := 255

/-- How many bytes a path may have. -/
def pathLimit : Nat := 4095

/-- Follow the parts of a path from a location. -/
def follow (w : Workspace) (l : Location) : List String → Except OsError Location
  | [] => .ok l
  | part :: parts =>
    match w.find? l with
    | none => .error .notFound
    | some (.file _) | some .null => .error .notADirectory
    | some .directory =>
      if Path.isIdle part then w.follow l parts
      else if part = ".." then w.follow (around l) parts
      else if nameLimit < part.utf8ByteSize then .error .nameTooLong
      else w.follow (l ++ [part]) parts

/-- The location that a path leads to. -/
def locate (w : Workspace) (path : String) : Except OsError Location :=
  if path.contains '\x00' then .error .zeroInPath
  else if path = "" then .error .notFound
  else if pathLimit < path.utf8ByteSize then .error .nameTooLong
  else if Path.isAbsolute path then w.follow ["/"] ((Path.parts path).drop 1)
  else w.follow [] (Path.parts path)

/-- The locations that a path leads through from a location on, as far as its parts alone
tell. -/
def through (l : Location) : List String → List Location
  | [] => [l]
  | part :: parts =>
    if Path.isIdle part then through l parts
    else if part = ".." then l :: through (around l) parts
    else l :: through (l ++ [part]) parts

/-- The locations that a path leads through. -/
def locations (path : String) : List Location :=
  if Path.isAbsolute path then through ["/"] ((Path.parts path).drop 1)
  else through [] (Path.parts path)

/-- A path that leads to a location. -/
def pathTo : Location → String
  | [] => "."
  | "/" :: l => "/" ++ Text.joinWith "/" l
  | l => Text.joinWith "/" l

/-- Whether a path leads to a directory. -/
def isDirectory (w : Workspace) (path : String) : Bool :=
  match w.locate path with
  | .ok l => w.find? l == some .directory
  | .error _ => false

/-! ## Files -/

/-- What a file holds. -/
def contents (w : Workspace) (path : String) : Except OsError Content :=
  match w.locate path with
  | .error e => .error e
  | .ok l => match w.find? l with
    | none => .error .notFound
    | some .directory => .error .isADirectory
    | some .null => .ok (.text "")
    | some (.file c) => .ok c

/-- The text of a file. -/
def read (w : Workspace) (path : String) : Except OsError String :=
  match w.contents path with
  | .error e => .error e
  | .ok (.binary _) => .error .notText
  | .ok (.text s) => .ok s

/-- The location where a file can be written. -/
def target (w : Workspace) (path : String) : Except OsError Location :=
  match w.locate path with
  | .error e =>
    if e = .notFound && Path.endsInSlash path && (w.locate ((Path.parent? path).getD "")).isOk
    then .error .isADirectory else .error e
  | .ok l => match w.find? l with
    | some .directory => .error .isADirectory
    | some (.file _) | some .null => .ok l
    | none => match w.find? l.dropLast with
      | some .directory => .ok l
      | some (.file _) | some .null => .error .notADirectory
      | none => .error .notFound

/-- The workspace with a file that holds something else. -/
def store (w : Workspace) (path : String) (c : Content) : Except OsError Workspace :=
  match w.target path with
  | .error e => .error e
  | .ok l => if w.find? l = some .null then .ok w else .ok (w.put l (.file c))

/-- The workspace with a text written to a file. -/
def write (w : Workspace) (path s : String) : Except OsError Workspace :=
  w.store path (.text s)

/-! ## Directories -/

/-- A path without the slashes at its end, unless there is nothing else. -/
def withoutSlashes (path : String) : String :=
  let cs := path.toList.reverse.dropWhile (· = '/')
  if cs.isEmpty then path else String.ofList cs.reverse

/-- The workspace with a directory made, in a directory that is there. -/
def makeDirectory (w : Workspace) (path : String) : Except OsError Workspace :=
  match w.locate (withoutSlashes path) with
  | .error e => .error e
  | .ok l => match w.find? l with
    | some _ => .error .alreadyThere
    | none => match w.find? l.dropLast with
      | some .directory => .ok (w.put l .directory)
      | some (.file _) | some .null => .error .notADirectory
      | none => .error .notFound

/-- Make a directory, where one that is already there does as well. -/
def ensureDirectory (w : Workspace) (path : String) : Except OsError Unit × Workspace :=
  match w.makeDirectory path with
  | .ok w => (.ok (), w)
  | .error e => (if w.isDirectory path then .ok () else .error e, w)

/-- Make a directory and those around it where they are missing ; `depth` bounds how many
may be missing. What was made stays if the rest cannot be made. -/
def makeDirectoriesTo (depth : Nat) (w : Workspace) (path : String) :
    Except OsError Unit × Workspace :=
  if path = "" then (.ok (), w)
  else match w.ensureDirectory path with
    | (.error .notFound, w) =>
      match depth, Path.parent? path with
      | depth + 1, some parent =>
        match makeDirectoriesTo depth w parent with
        | (.error e, w) => (.error e, w)
        | (.ok (), w) => w.ensureDirectory path
      | _, _ => (.error .notFound, w)
    | result => result

/-- Make a directory and those around it where they are missing. -/
def makeDirectories (w : Workspace) (path : String) : Except OsError Unit × Workspace :=
  makeDirectoriesTo path.length w path

end Workspace

end SettingsCompiler
