/-!
# Scripts

The commands of a script and the words in them. A word is a list of parts ; what a
quoted part stands for is text as it is, and what any other stands for may be split into
several words and is matched against file names.

These are the scripts of `sh`, which a formatter may be given. No theorem is about them.
-/

namespace SettingsCompiler.Shell

mutual

/-- A part of a word. -/
inductive Part
  | text (quoted : Bool) (cs : List Char)
  | parameter (quoted : Bool) (name : String) (use : Use)
  /-- What commands print. -/
  | output (quoted : Bool) (script : Command)
  | arithmetic (quoted : Bool) (expression : List Part)

/-- What a parameter is used for. A word with `orEmpty` stands also for a parameter that
is empty, and not only for one that is not set. -/
inductive Use
  | value
  | length
  | orElse (orEmpty : Bool) (word : List Part)
  | assign (orEmpty : Bool) (word : List Part)
  | demand (orEmpty : Bool) (word : List Part)
  | ifSet (orEmpty : Bool) (word : List Part)
  /-- The value without what a pattern matches at its start or its end. -/
  | trim (atEnd longest : Bool) (pattern : List Part)

/-- Where a command reads or writes. -/
inductive Redirect
  | input (descriptor : Nat) (file : List Part)
  | output (descriptor : Nat) (append : Bool) (file : List Part)
  | copy (descriptor : Nat) (source : List Part)
  /-- The text of a document in the script, by its number. -/
  | document (descriptor number : Nat)

/-- A command. -/
inductive Command
  | nothing
  | simple (assignments : List (String × List Part)) (words : List (List Part))
      (redirects : List Redirect)
  | redirected (body : Command) (redirects : List Redirect)
  | sequence (first second : Command)
  /-- The second command is run if the first one succeeded, or if it failed. -/
  | chain (onSuccess : Bool) (first second : Command)
  | negation (body : Command)
  | pipeline (commands : List Command)
  | background (body : Command)
  | subshell (body : Command)
  | choice (condition body otherwise : Command)
  /-- The body is run again while the condition succeeds, or while it fails. -/
  | loop (onSuccess : Bool) (condition body : Command)
  | forEach (name : String) (words : Option (List (List Part))) (body : Command)
  | select (subject : List Part) (branches : List (List (List Part) × Command))
  | function (name : String) (body : Command)

end

/-- Whether there is nothing to run. -/
def Command.isNothing : Command → Bool
  | .nothing => true
  | _ => false

/-- A word. -/
abbrev Word := List Part

/-- A script : its commands, each from the start of a line on, the documents in it, and
whether it could be read to its end. -/
structure Script where
  commands : List Command
  documents : List Word
  complete : Bool

end SettingsCompiler.Shell
