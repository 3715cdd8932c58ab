import SettingsCompiler.Shell.Sed

/-!
# Utilities on files

Utilities that show, copy, move and remove files and directories, and the table of all
utilities (`utility?`).

They stand for `cat`, `cp`, `mv`, `rm` and others of these names, which a formatter may be or run.
No theorem is about them.
-/

namespace SettingsCompiler.Shell

/-! ## Showing -/

/-- `cat`. -/
def shownFiles (c : Call) : Reply :=
  match options? "nuvETAe" "" c.args with
  | none => c.fail 1 "invalid option"
  | some (os, files) =>
    let ends := Options.has os 'E' || Options.has os 'A' || Options.has os 'e'
    let tabs := Options.has os 'T' || Options.has os 'A'
    let shown (c : Char) : List Char :=
      if c = '\n' && ends then ['$', c] else if c = '\t' && tabs then ['^', 'I'] else [c]
    let r := c.overFiles files fun _ s => String.ofList (s.toList.flatMap shown)
    if Options.has os 'n' then
      let ls := spans r.printed
      let row : Nat × String → String := fun (n, l) =>
        let n := toString (n + 1)
        String.ofList (List.replicate (6 - n.length) ' ') ++ n ++ "\t" ++ l
      { r with printed := String.join (((List.range ls.length).zip ls).map row) }
    else r

/-- `tee`. -/
def copiedOut (c : Call) : Reply :=
  match options? "ai" "" c.args with
  | none => c.fail 1 "invalid option"
  | some (os, files) =>
    files.foldl (fun r file =>
      let old := if Options.has os 'a' then
          ((r.files.read (c.path file)).toOption).getD "" else ""
      match r.files.write (c.path file) (old ++ c.input) with
      | .ok w => { r with files := w }
      | .error e => { r with
          status := 1
          complaints := r.complaints ++ "tee: " ++ file ++ ": " ++ e.reason ++ "\n" })
      { c.reply 0 c.input with input := "" }

/-- The names in a directory, in order. -/
def namesIn (w : Workspace) (l : Location) : List String :=
  let names := w.entries.filterMap fun (k, _) =>
    if k.length = l.length + 1 && k.dropLast = l then k.getLast? else none
  (names.filter fun n => !(l.isEmpty && (n = "/" || n = ".."))).mergeSort fun a b => a ≤ b

/-- `ls`. -/
def listing (c : Call) : Reply :=
  match options? "1aAdUr" "" c.args with
  | none => c.fail 2 "invalid option"
  | some (os, operands) =>
    let operands := if operands.isEmpty then ["."] else operands
    let hidden := Options.has os 'a' || Options.has os 'A'
    let (here, missing) := operands.partition fun f => match c.files.locate (c.path f) with
      | .ok l => (c.files.find? l).isSome
      | .error _ => false
    let isDirectory (f : String) : Bool := !Options.has os 'd' && c.files.isDirectory (c.path f)
    let (directories, plain) := here.partition isDirectory
    let turn (names : List String) : List String :=
      if Options.has os 'r' then names.reverse else names
    let inside (f : String) : List String :=
      match c.files.locate (c.path f) with
      | .ok l =>
        let names := (namesIn c.files l).filter fun n => hidden || !n.startsWith "."
        turn (if Options.has os 'a' then [".", ".."] ++ names else names)
      | .error _ => []
    let sortedNames (fs : List String) : List String := turn (fs.mergeSort fun a b => a ≤ b)
    let block (f : String) : String :=
      (if 1 < operands.length then f ++ ":\n" else "") ++ Text.unlines (inside f)
    let blocks := (if plain.isEmpty then [] else [Text.unlines (sortedNames plain)]) ++
      (sortedNames directories).map block
    let complaints := missing.map fun f =>
      "ls: cannot access '" ++ f ++ "': " ++ OsError.notFound.reason ++ "\n"
    { c.reply (if missing.isEmpty then 0 else 2) (Text.joinWith "\n" blocks) with
      complaints := String.join complaints }

/-! ## Changing -/

/-- Change files one after the other, where a change may stop on the way. -/
def eachStep (c : Call) (files : List String)
    (change : Workspace → String → Except String Unit × Workspace) : Reply :=
  files.foldl (fun r file => match change r.files file with
    | (.ok (), w) => { r with files := w }
    | (.error message, w) => { r with
        status := 1, complaints := r.complaints ++ c.name ++ ": " ++ message ++ "\n", files := w })
    (c.reply 0 "")

/-- Change files one after the other. -/
def eachFile (c : Call) (files : List String)
    (change : Workspace → String → Except String Workspace) : Reply :=
  eachStep c files fun w file => match change w file with
    | .ok w => (.ok (), w)
    | .error message => (.error message, w)

/-- `rm`. -/
def removed (c : Call) : Reply :=
  match options? "rRfvd" "" c.args with
  | none => c.fail 1 "invalid option"
  | some (os, files) =>
    let forced := Options.has os 'f'
    let whole := Options.has os 'r' || Options.has os 'R'
    if files.isEmpty && !forced then c.fail 1 "missing operand"
    else eachFile c files fun w file =>
      let refuse (e : OsError) : Except String Workspace :=
        .error ("cannot remove '" ++ file ++ "': " ++ e.reason)
      match w.locate (c.path file) with
      | .error e => if forced && (e = .notFound || e = .notADirectory) then .ok w else refuse e
      | .ok l => match w.find? l with
        | none => if forced then .ok w else refuse .notFound
        | some .directory => if whole then .ok (w.erase l) else refuse .isADirectory
        | some _ => .ok (w.erase l)

/-- The path that a file has when it is put to a target, which may be a directory. -/
def targetPath (c : Call) (w : Workspace) (target file : String) : String :=
  if w.isDirectory (c.path target) then Path.join target (lastPart file) else target

/-- The entries at a location and below it, put at another one. -/
def moved (entries : List (Location × Entry)) (source target : Location) :
    List (Location × Entry) :=
  entries.filterMap fun (k, e) =>
    if source.isPrefixOf k then some (target ++ k.drop source.length, e) else none

/-- `cp` and `mv`. -/
def transferred (keeps : Bool) (c : Call) : Reply :=
  match options? "rRafpnvT" "" c.args with
  | none => c.fail 1 "invalid option"
  | some (os, operands) =>
    let whole := !keeps || Options.has os 'r' || Options.has os 'R' || Options.has os 'a'
    match operands.reverse with
    | [] => c.fail 1 "missing file operand"
    | [file] => c.fail 1 ("missing destination file operand after '" ++ file ++ "'")
    | target :: files =>
      if 1 < files.length && !c.files.isDirectory (c.path target) then
        c.fail 1 ("target '" ++ target ++ "' is not a directory")
      else eachFile c files.reverse fun w file =>
        let goal := targetPath c w target file
        match w.locate (c.path file), w.target (c.path goal) with
        | .error e, _ => .error ("cannot stat '" ++ file ++ "': " ++ e.reason)
        | .ok source, goalPlace => match w.find? source with
          | none => .error ("cannot stat '" ++ file ++ "': " ++ OsError.notFound.reason)
          | some .null => match w.write (c.path goal) "" with
            | .ok w => .ok w
            | .error e => .error ("cannot create '" ++ goal ++ "': " ++ e.reason)
          | some (.file content) => match goalPlace with
            | .error e => .error ("cannot create regular file '" ++ goal ++ "': " ++ e.reason)
            | .ok l =>
              if l = source then
                .error ("'" ++ file ++ "' and '" ++ goal ++ "' are the same file")
              else if Options.has os 'n' && (w.find? l).isSome then .ok w
              else match w.store (c.path goal) content with
                | .ok w => .ok (if keeps then w else w.erase source)
                | .error e => .error ("cannot create '" ++ goal ++ "': " ++ e.reason)
          | some .directory =>
            if !whole then .error ("-r not specified; omitting directory '" ++ file ++ "'")
            else match w.locate (c.path goal) with
              | .error e => .error ("cannot create '" ++ goal ++ "': " ++ e.reason)
              | .ok l =>
                if source.isPrefixOf l then
                  .error ("cannot copy a directory, '" ++ file ++ "', into itself")
                else
                  let added := moved w.entries source l
                  let rest := if keeps then w else w.erase source
                  .ok (added.foldl (fun w (k, e) => w.put k e) rest)

/-- `mkdir`. -/
def madeDirectories (c : Call) : Reply :=
  match options? "pv" "m" c.args with
  | none => c.fail 1 "invalid option"
  | some (os, files) =>
    if files.isEmpty then c.fail 1 "missing operand"
    else eachStep c files fun w file =>
      let path := c.path file
      let refuse (e : OsError) : String :=
        "cannot create directory '" ++ file ++ "': " ++ e.reason
      if Options.has os 'p' then (w.makeDirectories path).map (·.mapError refuse) id
      else match w.makeDirectory path with
        | .ok w => (.ok (), w)
        | .error e => (.error (refuse e), w)

/-- `rmdir`. -/
def removedDirectories (c : Call) : Reply :=
  eachFile c c.args fun w file =>
    let refuse (reason : String) : Except String Workspace :=
      .error ("failed to remove '" ++ file ++ "': " ++ reason)
    match w.locate (c.path file) with
    | .error e => refuse e.reason
    | .ok l => match w.find? l with
      | none => refuse OsError.notFound.reason
      | some .directory =>
        if (namesIn w l).isEmpty then .ok (w.erase l) else refuse "Directory not empty"
      | some _ => refuse OsError.notADirectory.reason

/-- `touch`. -/
def touched (c : Call) : Reply :=
  match options? "cam" "dtr" c.args with
  | none => c.fail 1 "invalid option"
  | some (os, files) =>
    eachFile c files fun w file =>
      match w.locate (c.path file) with
      | .ok l =>
        if (w.find? l).isSome || Options.has os 'c' then .ok w
        else match w.write (c.path file) "" with
          | .ok w => .ok w
          | .error e => .error ("cannot touch '" ++ file ++ "': " ++ e.reason)
      | .error e => .error ("cannot touch '" ++ file ++ "': " ++ e.reason)

/-- Utilities that say by their status whether files are there, and change nothing. -/
def unchanged (c : Call) : Reply :=
  let (_, operands) := (options? "Rfvc" "" c.args).getD ([], c.args)
  eachFile c operands.tail fun w file =>
    match w.contents (c.path file) with
    | .ok _ | .error .isADirectory => .ok w
    | .error e => .error ("cannot access '" ++ file ++ "': " ++ e.reason)

/-- `cmp`. -/
def compared (c : Call) : Reply :=
  match options? "s" "" c.args with
  | some (os, [a, b]) =>
    match c.read a, c.read b with
    | .ok s, .ok t =>
      if s = t then c.reply 0 ""
      else
        let pairs := s.toList.zip t.toList
        let same := (pairs.takeWhile fun (x, y) => x == y).length
        let line := ((s.toList.take same).count '\n') + 1
        if Options.has os 's' then c.reply 1 ""
        else if same < pairs.length then
          c.reply 1 (a ++ " " ++ b ++ " differ: char " ++ toString (same + 1) ++ ", line " ++
            toString line ++ "\n")
        else c.reply 1 ""
    | .error e, _ => c.fail 2 (a ++ ": " ++ e.reason)
    | _, .error e => c.fail 2 (b ++ ": " ++ e.reason)
  | _ => c.fail 2 "invalid arguments"

/-! ## The table -/

/-- The directories where programs are. -/
def programDirectories : List String := ["/bin/", "/usr/bin/"]

/-- The name of the program that a command names with or without its directory. -/
def programName? (command : String) : Option String :=
  if !command.contains '/' then some command
  else match programDirectories.find? fun d => command.startsWith d with
    | some directory => some (String.ofList (command.toList.drop directory.length))
    | none => none

/-- Whether a command names the shell. -/
def isShell (command : String) : Bool := ["sh", "dash"].contains ((programName? command).getD "")

/-- The utilities by their names. -/
def utility? (name : String) : Option (Call → Reply) :=
  match name with
  | "true" => some fun c => c.reply 0 ""
  | "false" => some fun c => c.reply 1 ""
  | "cat" => some shownFiles
  | "tee" => some copiedOut
  | "ls" => some listing
  | "rm" => some removed
  | "cp" => some (transferred true)
  | "mv" => some (transferred false)
  | "mkdir" => some madeDirectories
  | "rmdir" => some removedDirectories
  | "touch" => some touched
  | "chmod" => some unchanged
  | "cmp" => some compared
  | "sleep" | "sync" => some fun c => c.reply 0 ""
  | "head" => some (ends true)
  | "tail" => some (ends false)
  | "wc" => some counts
  | "sort" => some sorted
  | "uniq" => some distinct
  | "tr" => some translated
  | "cut" => some cutLines
  | "rev" => some (reversed false)
  | "tac" => some (reversed true)
  | "grep" => some searched
  | "sed" => some edited
  | "seq" => some counted
  | "basename" => some (pathPart true)
  | "dirname" => some (pathPart false)
  | _ => none

end SettingsCompiler.Shell
