import SettingsCompiler.Setting.Basic
import SettingsCompiler.Docs.Token

/-!
# The outline of the documentation

Documentation is first laid out as a list of chunks, whatever it is going to look like :
comments, value lines, blocks that open and close, and the boundaries of the groups of
settings for experts. A struct is a block, an array a block around the block of one
element, a compact setting a line with the defaults of its children. Internal settings
and comment entries are left out.

`outline` depends on the tree alone ; how wide a line may be and how a chunk is spelled
comes later, so a tree that cannot be documented fails the same way in every style.
-/

namespace SettingsCompiler.Docs

/-- A part of the documentation. The depth counts levels of indentation. -/
inductive Chunk
  /-- The comment of the setting at a dotted path. -/
  | comment (depth : Nat) (path : String) (tokens : List Token)
  /-- A setting with its default. -/
  | value (depth : Nat) (name value : String)
  /-- The start of a block, or of an element if there is no name. -/
  | opening (depth : Nat) (name : Option String)
  | closing (depth : Nat)
  /-- Settings for experts begin or end here. -/
  | boundary (entering : Bool)
deriving DecidableEq, Repr

/-- A path one step further down. -/
def childPath (path name : String) : String :=
  if path = "" then name else path ++ "." ++ name

end SettingsCompiler.Docs

namespace SettingsCompiler.Setting

open Docs

/-- Whether the setting appears in documentation. -/
def isDocumented (s : Setting) : Bool :=
  !s.info.internal && !s.isComment

/-- The defaults of the documented settings of a list, the empty ones left out. -/
def shownDefaults : List Setting → Except Fault (List String)
  | [] => .ok []
  | c :: cs =>
    if c.isDocumented then
      match c.defaultText with
      | .error e => .error e
      | .ok text =>
        match shownDefaults cs with
        | .error e => .error e
        | .ok texts => .ok (if text = "" then texts else text :: texts)
    else shownDefaults cs

/-- The defaults of a compact setting on one line. -/
def compactText (s : Setting) : Except Fault String :=
  match s.fields with
  | .error e => .error e
  | .ok children => (shownDefaults children).map (Text.joinWith " ")

/-- The comment of a setting, if there is anything to say. -/
def commentChunks (depth : Nat) (path : String) (s : Setting) : List Chunk :=
  match tokenize s.docText with
  | [] => []
  | tokens => [.comment depth path tokens]

mutual

/-- The chunks of a setting behind its comment. -/
def bodyChunks (depth : Nat) (path : String) : Setting → Except Fault (List Chunk)
  | leaf info value =>
    match info.kind with
    | .struct | .array | .compact => .error (leaf info value).dangling
    | .comment => .ok []
    | _ => .ok [.value depth info.name value.shown]
  | group info children =>
    match info.kind with
    | .struct =>
      match listChunks (depth + 1) path false children with
      | .error e => .error e
      | .ok inner =>
        .ok (.opening depth (some info.name) :: inner ++ [.closing depth])
    | .array =>
      match listChunks (depth + 2) path false children with
      | .error e => .error e
      | .ok inner =>
        .ok (.opening depth (some info.name) :: .opening (depth + 1) none :: inner ++
          [.closing (depth + 1), .closing depth])
    | .compact =>
      match (group info children).compactText with
      | .error e => .error e
      | .ok text => .ok [.value depth info.name text]
    | .comment => .ok []
    | _ => .error (group info children).mismatch

/-- The chunks of a list of settings, which settings for experts precede iff `expert`. -/
def listChunks (depth : Nat) (path : String) (expert : Bool) :
    List Setting → Except Fault (List Chunk)
  | [] => .ok (if expert then [.boundary false] else [])
  | c :: cs =>
    if c.isDocumented then
      let here := childPath path c.info.name
      match bodyChunks depth here c with
      | .error e => .error e
      | .ok body =>
        match listChunks depth path c.info.expert cs with
        | .error e => .error e
        | .ok rest =>
          .ok ((if c.info.expert = expert then [] else [.boundary c.info.expert]) ++
            commentChunks depth here c ++ body ++ rest)
    else listChunks depth path expert cs

end

/-- The documentation of a root's settings. -/
def outline (root : Setting) : Except Fault (List Chunk) :=
  match root.fields with
  | .error e => .error e
  | .ok children => listChunks 0 "" false children

end SettingsCompiler.Setting
