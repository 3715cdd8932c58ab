import SettingsCompiler.Workspace.Basic

/-!
# Texts as bytes

Programs see bytes and not characters. `Text.bytes` has a character for each byte of a
text, whose code is the byte, and a workspace is seen in the same way (`Workspace.bytes`).
Read back, a file whose bytes encode no text holds just these bytes, and what is printed
has a replacement character in place of each byte that belongs to no character.

Only programs that run as formatters see texts in this way. No theorem is about them.
-/

namespace SettingsCompiler

namespace Text

/-- A character for each of some bytes. -/
def ofByteList (bs : List UInt8) : String := String.ofList (bs.map fun b => Char.ofNat b.toNat)

/-- A character for each byte of a text. -/
def bytes (s : String) : String := ofByteList s.toUTF8.toList

/-- The bytes that characters stand for. -/
def byteList (cs : List Char) : List UInt8 := cs.map fun c => c.toNat.toUInt8

/-- The text that bytes encode. -/
def decoded? (cs : List Char) : Option String := String.fromUTF8? ⟨(byteList cs).toArray⟩

/-- How many bytes a character may have. -/
def byteCounts : List Nat := [1, 2, 3, 4]

/-- The text that bytes encode, with replacement characters. -/
def decodedFrom : Nat → List Char → List Char
  | 0, _ | _, [] => []
  | fuel + 1, c :: cs =>
    match byteCounts.findSome? fun n => decoded? ((c :: cs).take n) with
    | some s => s.toList ++ decodedFrom fuel (cs.drop (s.utf8ByteSize - 1))
    | none => '\ufffd' :: decodedFrom fuel cs

/-- The text that bytes encode, with replacement characters. -/
def decoded (s : String) : String :=
  (decoded? s.toList).getD (String.ofList (decodedFrom s.length s.toList))

end Text

/-- What a file holds, as bytes. -/
def Content.bytes : Content → Content
  | text s => .text (Text.bytes s)
  | binary bs => .text (Text.ofByteList bs)

/-- What a file of bytes holds. -/
def Content.ofBytes : Content → Content
  | text s => match Text.decoded? s.toList with
    | some t => .text t
    | none => .binary (Text.byteList s.toList)
  | binary bs => .binary bs

/-- An entry with another content, if it has one. -/
def Entry.mapContent (f : Content → Content) : Entry → Entry
  | file c => .file (f c)
  | e => e

namespace Workspace

/-- The workspace with names and contents as bytes. -/
def bytes (w : Workspace) : Workspace :=
  ⟨w.entries.map fun e => (e.1.map Text.bytes, e.2.mapContent Content.bytes)⟩

/-- The workspace whose names and contents are given as bytes. -/
def ofBytes (w : Workspace) : Workspace :=
  ⟨w.entries.map fun e => (e.1.map Text.decoded, e.2.mapContent Content.ofBytes)⟩

end Workspace

end SettingsCompiler
