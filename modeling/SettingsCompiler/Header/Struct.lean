import SettingsCompiler.Setting.Registry
import SettingsCompiler.Header.Literal
import SettingsCompiler.Text.Wrap

/-!
# Struct definitions

Every composite becomes a struct, its children the members. A composite that owns its
struct has the definition emitted in front of the struct around it, once for each name
(`Setting.structDefs`) ; another composite only refers to a struct. A color has a second
member for its parsed form. Comment entries have no member.

The settings of a struct are checked for repeated identifiers before anything is emitted
for them, and names stay registered when a later setting fails.
-/

namespace SettingsCompiler.Header

/-- A member of a struct. -/
structure Member where
  /-- The comment above the member ; a parsed color has none. -/
  comment : Option String
  ty : String
  ident : String
deriving DecidableEq, Repr

/-- The definition of a struct. -/
structure StructDef where
  name : String
  comment : String
  members : List Member
deriving DecidableEq, Repr

/-- The member that holds a setting. -/
def Member.of (info : Info) : Member :=
  ⟨some info.comment, info.target, info.ident⟩

/-- The member beside a color that holds its parsed form. -/
def Member.parsedColor (info : Info) : Member :=
  ⟨none, "ParsedColor", info.ident ++ "Parsed"⟩

/-- The members that a setting contributes to the struct around it. -/
def membersOf (info : Info) : List Member :=
  match info.kind with
  | .comment => []
  | .color => [.of info, .parsedColor info]
  | _ => [.of info]

/-- The struct of a composite with the given children. -/
def StructDef.of (info : Info) (children : List Setting) : StructDef :=
  ⟨info.structName, info.comment, children.flatMap fun c => membersOf c.info⟩

end SettingsCompiler.Header

namespace SettingsCompiler.Setting

open Header

/-! ## Collecting the definitions -/

mutual

/-- The definitions needed for a composite, its own the last. -/
def define : Setting → Registering Fault (List StructDef)
  | leaf info value => throw (leaf info value).dangling
  | group info children => do
    Registering.ofExcept (group info children).checkIdentifiers
    return (← defineAll children) ++ [StructDef.of info children]

/-- The definitions needed for the settings of one list, in order. -/
def defineAll : List Setting → Registering Fault (List StructDef)
  | [] => return []
  | c :: cs => do
    let own ←
      if c.info.kind.isComposite then
        if c.ownsStruct && !(← Registering.isRegistered c.info.name) then
          let _ ← Registering.register c.info.name
          define c
        else do
          let _ ← Registering.ofExcept c.fields
          pure []
      else pure []
    return own ++ (← defineAll cs)

end

/-- The definitions for a root, in an order in which each comes before its use. -/
def structDefs (root : Setting) : Registering Fault (List StructDef) :=
  if root.info.kind = .struct then root.define
  else throw (.rootNotStruct root.info.name)

end SettingsCompiler.Setting

namespace SettingsCompiler.Header

/-! ## Spelling -/

/-- Columns of a line with a comment. -/
def commentWidth : Nat := 72

/-- A comment as lines behind an indentation. -/
def commentLines (indent text : String) : List String :=
  match Text.wrapWords (commentWidth - (indent.utf8ByteSize + 3)) text with
  | [] => [indent ++ "//"]
  | lines => lines.map fun line => indent ++ "// " ++ line

/-- The lines of a member. -/
def Member.lines (m : Member) : List String :=
  (match m.comment with
    | some comment => commentLines "    " comment
    | none => []) ++ ["    " ++ m.ty ++ " " ++ m.ident ++ ";"]

/-- The lines of a definition. -/
def StructDef.lines (d : StructDef) : List String :=
  (if d.comment = "" then [] else commentLines "" d.comment) ++
    ["struct " ++ d.name ++ " \x7b"] ++ d.members.flatMap Member.lines ++ ["\x7d;"]

/-- The text of a definition. -/
def StructDef.render (d : StructDef) : String :=
  Text.unlines d.lines

end SettingsCompiler.Header
