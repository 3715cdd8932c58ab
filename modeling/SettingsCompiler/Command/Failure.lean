import SettingsCompiler.Schema.Resolve
import SettingsCompiler.Text.Quoted
import SettingsCompiler.Workspace.Basic
import SettingsCompiler.Workspace.Ending

/-!
# Why a command fails

A `Failure` is a cause and what was under way when it arose, the widest activity first.
Its message names them in this order.
-/

namespace SettingsCompiler

/-- What is under way in a command. -/
inductive Activity
  | readingConfig (path : String)
  | parsingConfig (path : String)
  | loadingSchema (path : String)
  | compilingHeader
  | readingTarget (path : String)
  | splicing (path : String)
  | renderingText
  | renderingHtml
  | creating (directory : String)
  | writing (path : String)
  | reading (path : String)
  | creatingScratch (directory : String)
  | startingFormatter (program : String)
deriving DecidableEq, Repr

/-- How a message says that an activity failed. -/
def Activity.message : Activity → String
  | readingConfig path => "failed to read config: " ++ path
  | parsingConfig path => "failed to parse config: " ++ path
  | loadingSchema path => "failed to load schema: " ++ path
  | compilingHeader => "failed to compile header"
  | readingTarget path => "failed to read splice target: " ++ path
  | splicing path => "cannot splice into " ++ path
  | renderingText => "failed to render text documentation"
  | renderingHtml => "failed to render HTML documentation"
  | creating directory => "failed to create " ++ directory
  | writing path => "failed to write " ++ path
  | reading path => "failed to read " ++ path
  | creatingScratch directory => "failed to create scratch file in " ++ directory
  | startingFormatter program => "failed to run formatter " ++ program

/-- What makes an activity fail. -/
inductive Cause
  | os (error : OsError)
  /-- A schema file that cannot be read. -/
  | unreadable (path : String) (error : OsError)
  /-- A document that cannot be read or has another layout. -/
  | malformed
  | fault (fault : SchemaFault)
  | noMarker (marker : String)
  | emptyFormatter
  | formatterFailed (program path : String) (ending : Ending)
deriving DecidableEq, Repr

/-- The text of a cause. What the system says of an unreadable schema stands once in the
text and once behind it. -/
def Cause.message : Cause → String
  | os error => error.message
  | unreadable path error =>
    "failed to read schema file '" ++ path ++ "': " ++ error.message ++ ": " ++ error.message
  | malformed => "malformed document"
  | fault f => f.message
  | noMarker marker => "marker line not found: " ++ Text.quoted marker
  | emptyFormatter => "formatter command is empty"
  | formatterFailed program path ending =>
    "formatter " ++ program ++ " failed on " ++ path ++ ": " ++ ending.message

/-- A cause and what was under way, the widest activity first. -/
structure Failure where
  during : List Activity
  cause : Cause
deriving DecidableEq, Repr

namespace Failure

/-- The text of a failure. -/
def message (f : Failure) : String :=
  Text.joinWith ": " (f.during.map Activity.message ++ [f.cause.message])

/-- An outcome within an activity. -/
def within {ε α : Type} (activity : Activity) (cause : ε → Cause) :
    Except ε α → Except Failure α
  | .ok a => .ok a
  | .error e => .error ⟨[activity], cause e⟩

/-- An outcome where the cause is all there is to say. -/
def bare {ε α : Type} (cause : ε → Cause) : Except ε α → Except Failure α
  | .ok a => .ok a
  | .error e => .error ⟨[], cause e⟩

theorem within_ok {ε α : Type} {activity : Activity} {cause : ε → Cause} {x : Except ε α} {a : α} :
    within activity cause x = .ok a ↔ x = .ok a := by
  cases x <;> simp [within]

theorem bind_ok {α β : Type} {x : Except Failure α} {next : α → Except Failure β} {b : β} :
    (x >>= next) = .ok b ↔ ∃ a, x = .ok a ∧ next a = .ok b := by
  cases x with
  | error e => exact ⟨nofun, nofun⟩
  | ok a => exact ⟨fun h => ⟨a, rfl, h⟩, by rintro ⟨_, ⟨⟩, h⟩; exact h⟩

/-- A fault of the tree as a cause. -/
def ofFault (f : Fault) : Cause := .fault (.tree f)

end Failure

end SettingsCompiler
