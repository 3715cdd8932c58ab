import SettingsCompiler.Text.Blank
import SettingsCompiler.Text.Lines

/-!
# Splicing generated text into a file

The part of a file up to a marker line is written by hand and stays ; everything behind
it is replaced. The marker line is the first line that equals the marker when blanks
around both are ignored.
-/

namespace SettingsCompiler

/-- The lines up to the first one that equals the marker, blanks around it ignored. -/
def handWritten? (marker : List Char) : List (List Char) → Option (List Char)
  | [] => none
  | l :: ls =>
    if Text.trim l = Text.trim marker then some l
    else (handWritten? marker ls).map (l ++ ·)

/-- A text that ends in a line feed, added unless it is there. -/
def endLine (cs : List Char) : List Char :=
  if cs.getLast? = some '\n' then cs else cs ++ ['\n']

/-- A text with everything behind its marker line replaced ; nothing if it has no such
line. -/
def splice? (existing marker generated : String) : Option String :=
  (handWritten? marker.toList (Text.lineSpans existing.toList)).map fun kept =>
    String.ofList (endLine kept ++ generated.toList)

end SettingsCompiler
