import SettingsCompiler.Setting.Basic
import SettingsCompiler.Text.Substitute

/-!
# Stamping a version

The comment entries of a root may mention the version of the program and the identifier
of its documentation page. `Setting.stamp` fills both in ; it reaches the root's own
entries only.
-/

namespace SettingsCompiler

/-- The place of the version in a comment. -/
def versionMark : List Char := "\x7bversion\x7d".toList

/-- The place of the version's page identifier in a comment. -/
def docIdMark : List Char := "\x7bdoc_id\x7d".toList

/-- A comment with a version in place of its marks. -/
def stampText (version comment : String) : String :=
  String.ofList <|
    Text.substitute docIdMark (Name.docId version).toList
      (Text.substitute versionMark version.toList comment.toList)

/-- An entry of a root, stamped if it is a comment. -/
def Setting.stampEntry (version : String) (s : Setting) : Setting :=
  if s.isComment then
    s.mapInfo fun i =>
      let stamped := stampText version i.comment
      { i with comment := stamped, docComment := stamped }
  else s

/-- A root with a version stamped into its comment entries. -/
def Setting.stamp (version : String) : Setting → Setting
  | leaf info value => leaf info value
  | group info children => group info (children.map (stampEntry version))

end SettingsCompiler
