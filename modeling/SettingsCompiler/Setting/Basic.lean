import SettingsCompiler.Setting.Kind
import SettingsCompiler.Setting.Name

/-!
# The tree of settings

A setting carries its attributes and either a plain default or a list of settings. Most
pairs of a kind and a default make sense only together, and nothing here enforces it :
the passes over a tree report what does not fit as a `Fault`. `Setting.fields` is the
one way to the children of a composite.

`Setting.make` fills in what follows from a name and a kind : the identifier, the struct
and the member type. The `with...` functions change one attribute of a setting.
-/

namespace SettingsCompiler

/-! ## What can be wrong with a tree -/

/-- A reason why a tree of settings cannot be compiled. -/
inductive Fault
  /-- A tag that names no kind. -/
  | unknownType (field tag : String)
  /-- A composite without a list of settings. -/
  | danglingStruct (field structName : String)
  /-- Two members of one struct with the same identifier. -/
  | duplicateIdent (structName first second ident : String)
  /-- A default that contradicts the kind. -/
  | defaultMismatch (field : String) (kind : Kind)
  /-- A root of another kind. -/
  | rootNotStruct (field : String)
deriving DecidableEq, Repr

/-- The text of a fault. -/
def Fault.message : Fault → String
  | unknownType field tag => "field '" ++ field ++ "': unrecognized type tag '" ++ tag ++ "'"
  | danglingStruct field structName =>
    "field '" ++ field ++ "': no definition for struct '" ++ structName ++
      "' is reachable from the root"
  | duplicateIdent structName first second ident =>
    "struct '" ++ structName ++ "': fields '" ++ first ++ "' and '" ++ second ++
      "' both derive identifier '" ++ ident ++ "'"
  | defaultMismatch field kind =>
    "field '" ++ field ++ "': default value does not fit type " ++ kind.tag
  | rootNotStruct field => "field '" ++ field ++ "': schema root must be a Struct"

/-! ## Settings -/

/-- The attributes of a setting. -/
structure Info where
  name : String
  kind : Kind
  /-- The type of the member of a struct that holds the setting. -/
  target : String
  comment : String
  /-- The comment shown in documentation. -/
  docComment : String
  /-- Kept out of metadata and documentation. -/
  internal : Bool
  /-- Shown in documentation among the settings for experts. -/
  expert : Bool
  /-- The version that introduced the setting. -/
  version : String
  structName : String
  /-- The identifier of the member of a struct that holds the setting. -/
  ident : String
deriving DecidableEq, Repr

/-- A default that is not a list of settings. -/
inductive Value
  | null
  | bool (b : Bool)
  | int (n : Int64)
  | text (s : String)
deriving DecidableEq, Repr

/-- A setting : its attributes and its default. -/
inductive Setting
  | leaf (info : Info) (value : Value)
  | group (info : Info) (children : List Setting)

namespace Setting

/-- The attributes of a setting. -/
def info : Setting → Info
  | leaf info _ => info
  | group info _ => info

@[simp] theorem info_leaf (info : Info) (value : Value) : (leaf info value).info = info := rfl

@[simp] theorem info_group (info : Info) (children : List Setting) :
    (group info children).info = info := rfl

/-- The version of settings that were there from the start. -/
def baseline : String := "2.3"

/-- The attributes that follow from a name, a kind and a comment. -/
def infoOf (name : String) (kind : Kind) (comment : String) : Info :=
  let structName := match kind with
    | .array => Name.singular name
    | .struct | .compact => name
    | _ => ""
  { name, kind, target := kind.target structName, comment, docComment := comment,
    internal := false, expert := false, version := baseline, structName,
    ident := Name.lowerCamel name }

/-- The setting with other attributes. -/
def mapInfo (f : Info → Info) : Setting → Setting
  | leaf info value => leaf (f info) value
  | group info children => group (f info) children

/-- The setting with a plain default in place of its own. -/
def withValue (value : Value) (s : Setting) : Setting :=
  leaf s.info value

/-- The setting, marked for experts. -/
def asExpert : Setting → Setting :=
  mapInfo fun i => { i with expert := true }

/-- The setting, kept out of metadata and documentation. -/
def asInternal : Setting → Setting :=
  mapInfo fun i => { i with internal := true }

/-- The setting as introduced by a version. -/
def withVersion (version : String) : Setting → Setting :=
  mapInfo fun i => { i with version }

/-- The setting with a comment of its own in documentation. -/
def withDoc (doc : String) : Setting → Setting :=
  mapInfo fun i => { i with docComment := doc }

/-- The setting with a struct of another name. -/
def withStructName (structName : String) : Setting → Setting :=
  mapInfo fun i => { i with structName, target := i.kind.target structName }

/-! ## Questions about a setting -/

/-- Whether the setting is a line of comment. -/
def isComment (s : Setting) : Bool :=
  s.info.kind == .comment

/-- The fault of a setting that should have had children. -/
def dangling (s : Setting) : Fault :=
  .danglingStruct s.info.name s.info.structName

/-- The fault of a setting whose default contradicts its kind. -/
def mismatch (s : Setting) : Fault :=
  .defaultMismatch s.info.name s.info.kind

/-- The children of a composite. -/
def fields : Setting → Except Fault (List Setting)
  | leaf info value => .error (leaf info value).dangling
  | group info children =>
    if info.kind.isComposite then .ok children else .error (group info children).dangling

/-- Whether the setting's name, or its name without one final `s`, is its struct. Other
settings use a struct that is defined elsewhere. -/
def ownsStruct (s : Setting) : Bool :=
  s.info.name == s.info.structName ||
    Name.stem? s.info.name.toList == some s.info.structName.toList

/-- The comment of the setting in documentation, with the version that introduced it
unless that is the baseline. -/
def docText (s : Setting) : String :=
  if s.info.version = baseline then s.info.docComment
  else s.info.docComment ++ " (introduced in version " ++ s.info.version ++ ")"

/-- The identifiers that the setting contributes to the struct around it. -/
def memberIdents (s : Setting) : List String :=
  match s.info.kind with
  | .comment => []
  | .color => [s.info.ident, s.info.ident ++ "Parsed"]
  | _ => [s.info.ident]

/-- The identifiers contributed by a list of settings, each with the name of the setting
it comes from. -/
def identsOf (children : List Setting) : List (String × String) :=
  children.flatMap fun c => c.memberIdents.map fun ident => (ident, c.info.name)

/-- The first identifier that occurs a second time : it, the name of its first owner and
the name of its second. `seen` holds the identifiers before these. -/
def firstRepeat (seen : List (String × String)) :
    List (String × String) → Option (String × String × String)
  | [] => none
  | (ident, name) :: rest =>
    match seen.lookup ident with
    | some first => some (ident, first, name)
    | none => firstRepeat (seen ++ [(ident, name)]) rest

/-- Nothing if the children contribute pairwise distinct identifiers. -/
def checkIdents (info : Info) (children : List Setting) : Except Fault Unit :=
  match firstRepeat [] (identsOf children) with
  | none => .ok ()
  | some (ident, first, second) =>
    .error (.duplicateIdent info.structName first second ident)

/-- The identifiers of a composite's members are pairwise distinct. -/
def checkIdentifiers (s : Setting) : Except Fault Unit :=
  match s.fields with
  | .ok children => checkIdents s.info children
  | .error e => .error e

end Setting

/-- A decimal numeral with a sign in front of a negative number. -/
def decimal (n : Int64) : String :=
  toString n.toInt

namespace Value

/-- A plain default as documentation shows it ; empty when unset. -/
def shown : Value → String
  | null => ""
  | bool b => if b then "true" else "false"
  | int n => decimal n
  | text s => s

end Value

/-- The default of a leaf as documentation shows it. -/
def Setting.defaultText : Setting → Except Fault String
  | leaf _ value => .ok value.shown
  | group info children => .error (group info children).mismatch

/-- A setting with a plain default, its other attributes derived. -/
def Setting.make (name : String) (kind : Kind) (value : Value) (comment : String) : Setting :=
  leaf (infoOf name kind comment) value

/-- A setting with a list of settings as its default. -/
def Setting.makeGroup (name : String) (kind : Kind) (children : List Setting)
    (comment : String) : Setting :=
  group (infoOf name kind comment) children

end SettingsCompiler
