import SettingsCompiler.Command.Invocation

/-!
# The program

The files that a command line names are taken into a workspace, the command is run on it,
and what it changed is put back.
-/

namespace SettingsCompiler

/-- The location of the null device. -/
def nullDevice : Location := ["/", "dev", "null"]

/-- What is stored at a location. -/
def stored? (l : Location) : IO (Option Entry) := do
  if l = nullDevice then return some .null
  let path := Workspace.pathTo l
  try
    if ← (← IO.FS.realPath path).isDir then return some .directory
    let bytes ← IO.FS.readBinFile path
    match String.fromUTF8? bytes with
    | some s => return some (.file (.text s))
    | none => return some (.file (.binary bytes.toList))
  catch _ => return none

/-- A workspace with what is stored at the locations that paths lead through. -/
def takeIn (w : Workspace) (paths : List String) : IO Workspace :=
  (paths.flatMap Workspace.locations).foldlM (fun w l => do
    if (w.find? l).isSome then return w
    match ← stored? l with
    | some e => return w.put l e
    | none => return w) w

/-- A workspace with what is stored in a directory and, to a depth, below it. -/
def takeInTree : Nat → Workspace → Location → IO Workspace
  | 0, w, _ => return w
  | depth + 1, w, l => do
    let directory ← IO.FS.realPath (Workspace.pathTo l)
    let names := (← directory.readDir).toList.map fun e => e.fileName
    names.foldlM (fun w name => do
      let l := l ++ [name]
      match ← if (w.find? l).isSome then pure (w.find? l) else stored? l with
      | some .directory => takeInTree depth (w.put l .directory) l
      | some e => return w.put l e
      | none => return w) w

/-- Store the entries that differ from those of another workspace, and remove the files that
are gone. -/
def putBack (before after : Workspace) : IO Unit := do
  before.entries.forM fun (l, e) => do
    if (after.find? l).isNone && (after.find? l.dropLast).isSome then
      let path := Workspace.pathTo l
      if e = .directory then IO.FS.removeDirAll path else IO.FS.removeFile path
  after.entries.forM fun (l, e) => do
    if before.find? l ≠ some e then
      let path := Workspace.pathTo l
      match e with
      | .directory => IO.FS.createDirAll path
      | .null => return ()
      | .file (.text s) => IO.FS.writeFile path s
      | .file (.binary bytes) => IO.FS.writeBinFile path ⟨bytes.toArray⟩

/-- How many directories below the working directory a formatter finds. -/
def treeDepth : Nat := 32

/-- The files that a command line names, as they are stored, and all those below the working
directory if a formatter may ask for them. -/
def snapshot (args : List String) : IO Workspace := do
  match (Invocation.ofArguments? args).bind Invocation.config? with
  | none => return .empty
  | some config =>
    let w ← takeIn .empty [config]
    match Config.load w config with
    | .ok c =>
      let w ← takeIn w c.paths
      if (c.header.bind HeaderTarget.formatter).isSome then takeInTree treeDepth w [] else return w
    | .error _ => return w

end SettingsCompiler

open SettingsCompiler in
/-- Run the command line. -/
def main (args : List String) : IO UInt32 := do
  let before ← snapshot args
  let outcome := runArguments args before
  putBack before outcome.session.files
  IO.print outcome.session.printed
  match outcome.failure with
  | some f => IO.eprintln f.message
  | none =>
    if (Invocation.ofArguments? args).isNone then IO.eprint Invocation.usage
  return outcome.code.toUInt32
