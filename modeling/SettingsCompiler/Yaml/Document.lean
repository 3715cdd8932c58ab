import SettingsCompiler.Yaml.Tree

/-!
# YAML documents

`document?` reads a text that holds exactly one document. The tokens are read by
recursive descent along the grammar ; every value left out is an empty scalar. Every
step of the descent reads a token or one of the values left out between two tokens, so
twice the number of tokens bounds its depth.

The names of anchors become numbers here. An anchor takes the number of names known
before it, and only a new name makes them more : after a name was given twice, the next
anchor shares its number. An alias takes the number that its name has at that place.
-/

namespace SettingsCompiler.Yaml

open Data

/-- The tokens still to be read, the handles of tags, and the names of anchors with their
numbers, the latest first. -/
structure Composer where
  tokens : List Token
  handles : List (String × TagText)
  names : List (String × Nat)
  /-- How many different names there are. -/
  known : Nat
  /-- How many collections are open. -/
  level : Nat

namespace Composer

/-- A step that may fail. -/
abbrev Step := StateT Composer Option

/-- The next token. -/
def peek : Step Token := do
  match (← get).tokens with
  | t :: _ => return t
  | [] => failure

/-- Pass over the next token. -/
def skip : Step Unit :=
  modify fun c => { c with tokens := c.tokens.tail }

/-- Pass over the next token, which must be a given one. -/
def expect (t : Token) : Step Unit := do
  if (← peek) = t then skip else failure

/-- A scalar. -/
def scalarTree (text : String) (style : ScalarStyle) (tag : Option TagText) : Tree :=
  .scalar (scalar text style tag)

/-- A value left out. -/
def emptyTree : Tree := scalarTree "" .plain none

/-- A collection with its contents, unless it is nested too deep. -/
def collection {α : Type} (read : Step α) : Step α := do
  let level := (← get).level
  if maxDepth ≤ level then failure
  modify fun c => { c with level := level + 1 }
  let contents ← read
  modify fun c => { c with level }
  return contents

/-- An alias by its name. -/
def reference (name : String) : Step Tree := do
  match (← get).names.lookup name with
  | some n => return .reference n
  | none => failure

/-- The whole tag of a handle and a suffix. -/
def wholeTag (handle : String) (suffix : TagText) : Step TagText := do
  if handle = "" then return suffix
  else match (← get).handles.lookup handle with
    | some replacement => return replacement.append suffix
    | none => failure

/-- Anchor and tag in front of a node, in either order, at most one of each. -/
def properties : Step (Option String × Option TagText) := do
  match ← peek with
  | .anchor name =>
    skip
    match ← peek with
    | .tag handle suffix => skip; return (some name, some (← wholeTag handle suffix))
    | _ => return (some name, none)
  | .tag handle suffix =>
    skip
    let tag ← wholeTag handle suffix
    match ← peek with
    | .anchor name => skip; return (some name, some tag)
    | _ => return (none, some tag)
  | _ => return (none, none)

/-- Read a node under an anchor : the name has its number from the node's start on. -/
def anchored (anchor : Option String) (read : Step Tree) : Step Tree := do
  match anchor with
  | none => read
  | some name =>
    let c ← get
    let isNew := (c.names.lookup name).isNone
    set { c with
      names := (name, c.known) :: c.names
      known := if isNew then c.known + 1 else c.known }
    return .anchor c.known (← read)

/-- The name of a tag that a collection carries. -/
def collectionTag (tag : Option TagText) : Option String :=
  tag.bind TagText.localName?

mutual

/-- A node. Block collections are allowed iff `block`, and items at the column of the
mapping around them iff `level`. -/
def tree (block level : Bool) : Nat → Step Tree
  | 0 => failure
  | fuel + 1 => do
    match ← peek with
    | .reference name => skip; reference name
    | _ =>
      let (anchor, tag) ← properties
      anchored anchor do
        match ← peek with
        | .scalar text style => skip; return scalarTree text style tag
        | .flowSequence =>
          skip
          return .list (collectionTag tag) (← collection (flowItems true fuel))
        | .flowMapping =>
          skip
          return .map (collectionTag tag) (← collection (flowEntries true fuel))
        | .blockSequence =>
          if block then
            skip
            return .list (collectionTag tag) (← collection (blockItems fuel))
          else leftOut anchor tag
        | .blockMapping =>
          if block then
            skip
            return .map (collectionTag tag) (← collection (blockEntries fuel))
          else leftOut anchor tag
        | .blockEntry =>
          if level then return .list (collectionTag tag) (← collection (levelItems fuel))
          else leftOut anchor tag
        | _ => leftOut anchor tag

/-- A node of which only an anchor or a tag is there. -/
def leftOut (anchor : Option String) (tag : Option TagText) : Step Tree :=
  if anchor.isSome || tag.isSome then return scalarTree "" .plain tag
  else failure

/-- The items of a block sequence. -/
def blockItems : Nat → Step (List Tree)
  | 0 => failure
  | fuel + 1 => do
    match ← peek with
    | .blockEntry =>
      skip
      let item ← match ← peek with
        | .blockEntry | .blockEnd => pure emptyTree
        | _ => tree true false fuel
      return item :: (← blockItems fuel)
    | .blockEnd => skip; return []
    | _ => failure

/-- The items of a block sequence at the column of the mapping around it. -/
def levelItems : Nat → Step (List Tree)
  | 0 => failure
  | fuel + 1 => do
    match ← peek with
    | .blockEntry =>
      skip
      let item ← match ← peek with
        | .blockEntry | .key | .value | .blockEnd => pure emptyTree
        | _ => tree true false fuel
      return item :: (← levelItems fuel)
    | _ => return []

/-- The entries of a block mapping. -/
def blockEntries : Nat → Step (List (Tree × Tree))
  | 0 => failure
  | fuel + 1 => do
    match ← peek with
    | .key =>
      skip
      let k ← blockPart fuel
      let v ← match ← peek with
        | .value => skip; blockPart fuel
        | _ => pure emptyTree
      return (k, v) :: (← blockEntries fuel)
    | .blockEnd => skip; return []
    | _ => failure

/-- A key or a value of a block mapping. -/
def blockPart : Nat → Step Tree
  | 0 => failure
  | fuel + 1 => do
    match ← peek with
    | .key | .value | .blockEnd => return emptyTree
    | _ => tree true true fuel

/-- The items of a sequence in brackets, with a comma in front unless `first`. -/
def flowItems (first : Bool) : Nat → Step (List Tree)
  | 0 => failure
  | fuel + 1 => do
    if (← peek) = .flowSequenceEnd then
      skip
      return []
    else
      if !first then expect .flowEntry
      match ← peek with
      | .flowSequenceEnd => skip; return []
      | .key =>
        skip
        let entry ← collection (flowPair fuel)
        return .map none [entry] :: (← flowItems false fuel)
      | _ =>
        let item ← tree false false fuel
        return item :: (← flowItems false fuel)

/-- A single entry of a mapping among the items of a sequence in brackets. -/
def flowPair : Nat → Step (Tree × Tree)
  | 0 => failure
  | fuel + 1 => do
    let k ← match ← peek with
      | .value | .flowEntry | .flowSequenceEnd => skip; pure emptyTree
      | _ => tree false false fuel
    let v ← match ← peek with
      | .value =>
        skip
        match ← peek with
        | .flowEntry | .flowSequenceEnd => pure emptyTree
        | _ => tree false false fuel
      | _ => pure emptyTree
    return (k, v)

/-- The entries of a mapping in braces, with a comma in front unless `first`. -/
def flowEntries (first : Bool) : Nat → Step (List (Tree × Tree))
  | 0 => failure
  | fuel + 1 => do
    if (← peek) = .flowMappingEnd then
      skip
      return []
    else
      if !first then expect .flowEntry
      match ← peek with
      | .flowMappingEnd => skip; return []
      | .key =>
        skip
        let k ← match ← peek with
          | .value | .flowEntry | .flowMappingEnd => pure emptyTree
          | _ => tree false false fuel
        let v ← match ← peek with
          | .value =>
            skip
            match ← peek with
            | .flowEntry | .flowMappingEnd => pure emptyTree
            | _ => tree false false fuel
          | _ => pure emptyTree
        return (k, v) :: (← flowEntries false fuel)
      | _ =>
        let k ← tree false false fuel
        return (k, emptyTree) :: (← flowEntries false fuel)

end

/-! ## The document -/

/-- The directives in front of a document : at most one version, of those that are
known, and handles of tags. -/
def directives (seen : Bool) : Nat → Step Unit
  | 0 => failure
  | fuel + 1 => do
    match ← peek with
    | .version major minor =>
      if seen || major ≠ 1 || (minor ≠ 1 && minor ≠ 2) then failure
      skip
      directives true fuel
    | .tagHandle handle replacement =>
      let c ← get
      if ((c.handles.dropLast).dropLast.lookup handle).isSome then failure
      set { c with tokens := c.tokens.tail, handles := (handle, replacement) :: c.handles }
      directives seen fuel
    | _ => return ()

/-- Pass over the marks behind a document. -/
def endMarks : Nat → Step Unit
  | 0 => return ()
  | fuel + 1 => do
    match ← peek with
    | .documentEnd => skip; endMarks fuel
    | _ => return ()

/-- The only document of the tokens. -/
def document (fuel : Nat) : Step Tree := do
  let root ← match ← peek with
    | .streamEnd => failure
    | .documentStart | .version .. | .tagHandle .. =>
      directives false fuel
      expect .documentStart
      match ← peek with
      | .version .. | .tagHandle .. | .documentStart | .documentEnd | .streamEnd =>
        pure emptyTree
      | _ => tree true false fuel
    | _ => tree true false fuel
  endMarks fuel
  expect .streamEnd
  return root

end Composer

/-- The handles of tags that need no directive. -/
def standardHandles : List (String × TagText) :=
  [("!", .ofString "!"), ("!!", .ofString TagText.core)]

/-- The root node of a text with exactly one document. -/
def document? (s : String) : Option Node := do
  let tokens ← Token.ofText? s
  let tree ← (Composer.document (2 * tokens.length + 2)).run'
    ⟨tokens, standardHandles, [], 0, 0⟩
  tree.node?

end SettingsCompiler.Yaml
