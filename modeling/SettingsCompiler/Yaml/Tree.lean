import SettingsCompiler.Yaml.Plain

/-!
# Documents with aliases

A `Tree` is a document as it is written : a node may have an anchor, and an alias stands
for another node. Anchors have numbers, and a number may be given to several nodes. It
stands for the last of them in the whole document, so an alias may refer to a node
behind it.

`node?` puts a copy of its node for each alias. A document must not grow without bound
this way : collections are nested at most `maxDepth` deep, and there are at most
`copiesPerEvent` copies for each event, an event being a scalar, an alias, or either end
of a collection. An alias inside the node that it stands for has no copy within these
bounds.
-/

namespace SettingsCompiler.Yaml

open Data

/-- A document as it is written. -/
inductive Tree
  | scalar (s : Scalar)
  | list (tag : Option String) (items : List Tree)
  | map (tag : Option String) (entries : List (Tree × Tree))
  | anchor (number : Nat) (t : Tree)
  | reference (number : Nat)

/-- How deep collections may be nested. -/
def maxDepth : Nat := 128

/-- How many copies a document may have for each of its events. -/
def copiesPerEvent : Nat := 100

namespace Tree

/-! ## The parts of a tree -/

mutual

/-- The number of events. -/
def events : Tree → Nat
  | scalar _ | reference _ => 1
  | list _ items => itemEvents items + 2
  | map _ entries => entryEvents entries + 2
  | anchor _ t => events t

/-- The number of events in the items of a list. -/
def itemEvents : List Tree → Nat
  | [] => 0
  | t :: ts => events t + itemEvents ts

/-- The number of events in the entries of a mapping. -/
def entryEvents : List (Tree × Tree) → Nat
  | [] => 0
  | (k, v) :: es => events k + events v + entryEvents es

end

mutual

/-- The nodes with anchors and their numbers, in the order in which they start. -/
def anchored : Tree → List (Nat × Tree)
  | scalar _ | reference _ => []
  | list _ items => itemsAnchored items
  | map _ entries => entriesAnchored entries
  | anchor n t => (n, t) :: anchored t

/-- The nodes with anchors in the items of a list. -/
def itemsAnchored : List Tree → List (Nat × Tree)
  | [] => []
  | t :: ts => anchored t ++ itemsAnchored ts

/-- The nodes with anchors in the entries of a mapping. -/
def entriesAnchored : List (Tree × Tree) → List (Nat × Tree)
  | [] => []
  | (k, v) :: es => anchored k ++ anchored v ++ entriesAnchored es

end

/-! ## Copies -/

/-- A tree without its anchor. -/
def bare : Tree → Tree
  | anchor _ t => bare t
  | t => t

/-- The node that a tree stands for, where `targets` says which one a number means. The
state counts the copies so far, of which there may be `limit`. -/
def resolve (targets : Nat → Option Tree) (limit : Nat) (t : Tree) : StateT Nat Option Tree :=
  match t.bare with
  | reference n => do
    let copies ← get
    if limit ≤ copies then failure
    set (copies + 1)
    match targets n with
    | some target => return target.bare
    | none => failure
  | t => return t

/-- A tree with copies for its aliases, of at most the given depth. -/
def expand (targets : Nat → Option Tree) (limit : Nat) : Nat → Tree → StateT Nat Option Node
  | depth, t => do
    match ← resolve targets limit t, depth with
    | scalar s, _ => return .scalar s
    | list tag items, depth + 1 => return .list tag (← items.mapM (expand targets limit depth))
    | map tag entries, depth + 1 =>
      let entries ← entries.mapM fun e => do
        return (← expand targets limit depth e.1, ← expand targets limit depth e.2)
      return .map tag entries
    | _, _ => failure

/-- The document of a tree, with copies for its aliases. -/
def node? (t : Tree) : Option Node :=
  let targets := t.anchored.reverse
  (expand (fun n => targets.lookup n) (copiesPerEvent * t.events) maxDepth t).run' 0

end Tree

end SettingsCompiler.Yaml
