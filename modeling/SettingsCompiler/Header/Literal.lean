import SettingsCompiler.Setting.Basic

/-!
# Literals of the generated code

`quote` writes a text as a string literal of the generated code and `quoteJoined` packs
several texts into one literal with a zero character between neighbours. A default
becomes a `Literal` (`Setting.encode`) : what a table refers to for a composite, the
comment itself for a comment entry.
-/

namespace SettingsCompiler.Header

/-! ## String literals -/

/-- A character inside a string literal. -/
def escapeChar (c : Char) : List Char :=
  if c = '\\' then ['\\', '\\']
  else if c = '\x22' then ['\\', '\x22']
  else if c = '\n' then ['\\', 'n']
  else if c = '\r' then ['\\', 'r']
  else if c = '\t' then ['\\', 't']
  else [c]

/-- The inside of a string literal for a text. -/
def escapeText (cs : List Char) : List Char :=
  cs.flatMap escapeChar

/-- A text as a string literal. -/
def quote (s : String) : String :=
  String.ofList ('\x22' :: escapeText s.toList ++ ['\x22'])

/-- The inside of a string literal for several texts with zero characters between. -/
def escapeJoined : List (List Char) → List Char
  | [] => []
  | [p] => escapeText p
  | p :: q :: ps => escapeText p ++ '\\' :: '0' :: escapeJoined (q :: ps)

/-- Several texts as one string literal. -/
def quoteJoined (parts : List String) : String :=
  String.ofList ('\x22' :: escapeJoined (parts.map String.toList) ++ ['\x22'])

/-! ## Defaults -/

/-- A default in a metadata row. -/
inductive Literal
  | bool (b : Bool)
  | int (n : Int64)
  | str (s : String)
  /-- The address of a table, by its identifier. -/
  | tableRef (info : String)
  | null
deriving DecidableEq, Repr

/-- A literal as it is written in a table. -/
def Literal.text : Literal → String
  | bool b => if b then "true" else "false"
  | int n => decimal n
  | str s => "(intptr_t)" ++ quote s
  | tableRef info => "(intptr_t)&" ++ info
  | null => "0"

/-- The literal of a plain default of some kind, if it fits the kind. -/
def Literal.ofValue? : Kind → Value → Option Literal
  | .struct, _ | .compact, _ | .array, _ | .comment, _ => none
  | _, .null => some null
  | .bool, .bool b => some (bool b)
  | .int, .int n => some (int n)
  | kind, .text s => if kind.isTextual then some (str s) else none
  | _, _ => none

end SettingsCompiler.Header

namespace SettingsCompiler

open Header

/-- The literal of a setting's default. A composite refers to the table with the given
identifier ; a comment entry holds its comment. -/
def Setting.encode (table : Option String) (s : Setting) : Except Fault Literal :=
  if s.isComment then
    .ok (if s.info.comment = "" then .null else .str s.info.comment)
  else if s.info.kind.isComposite then
    match s.fields, table with
    | .error e, _ => .error e
    | .ok _, some info => .ok (.tableRef info)
    | .ok _, none => .error s.dangling
  else match s with
    | leaf info value => match Literal.ofValue? info.kind value with
      | some l => .ok l
      | none => .error (leaf info value).mismatch
    | group info children => .error (group info children).mismatch

end SettingsCompiler
