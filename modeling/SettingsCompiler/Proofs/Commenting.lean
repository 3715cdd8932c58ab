import SettingsCompiler.Header.Struct
import SettingsCompiler.Proofs.Quoting

/-!
# Comments beside code

A compiler joins lines that end in a backslash, and then drops from each line what stands behind
a pair of slashes (`readCode`). Whether the first line of a piece of code is read at all depends
on the comment in front of it : one that ends in a backslash swallows the line (`seen_remark`,
`seen_statement`).

The lines of a comment are filled with its words, and another line of comment behind a backslash
is swallowed without harm. So a definition reads as its code, without each line whose comment
ends in a backslash (`sparesCode`).
-/

namespace SettingsCompiler.Header

open Text

/-! ## A reader of code -/

/-- The lines of code, joined where they end in a backslash. -/
def logicalLines (code : List Char) : List (List Char) :=
  pieces (· = '\n') (joined code)

/-- A line up to the first pair of slashes. -/
def withoutRemark : List Char → List Char
  | '/' :: '/' :: _ => []
  | c :: cs => c :: withoutRemark cs
  | [] => []

/-- A line without its comment and the spaces in front. -/
def said (line : List Char) : List Char :=
  (withoutRemark line).dropWhile (· = ' ')

/-- What the lines of code say, without blank lines ; the first line is passed over if a comment
in front of it has swallowed it. -/
def seen (swallowed : Bool) (code : List Char) : List (List Char) :=
  (((logicalLines code).drop swallowed.toNat).map said).filter fun line => !line.all isBlank

/-- The lines of code without comments, blank lines and the spaces in front. -/
def readCode (code : String) : List String :=
  (seen false code.toList).map String.ofList

/-! ## One line -/

/-- A line that does not end in a backslash is a line of its own. -/
theorem logicalLines_line {line : List Char} (hline : '\n' ∉ line)
    (hlast : line.getLast? ≠ some '\\') (code : List Char) :
    logicalLines (line ++ '\n' :: code) = line :: logicalLines code := by
  have hjoined : joined (line ++ '\n' :: code) = line ++ '\n' :: joined code := by
    rw [joined_append hline fun h => absurd h hlast, joined_cons fun h => absurd h (by decide)]
  rw [logicalLines, hjoined]
  exact pieces_append_cons (fun c hc => decide_eq_false fun h => hline (h ▸ hc)) rfl

/-- A line that ends in a backslash has the next one behind it. -/
theorem logicalLines_open {line : List Char} (hline : '\n' ∉ line) (code : List Char) :
    ∃ first rest, logicalLines code = first :: rest ∧
      logicalLines (line ++ '\\' :: '\n' :: code) = (line ++ first) :: rest := by
  have hjoined : joined (line ++ '\\' :: '\n' :: code) = line ++ joined code :=
    joined_append hline fun _ => by simp
  obtain ⟨first, rest, hpieces⟩ := List.exists_cons_of_ne_nil (pieces_ne_nil (· = '\n') (joined code))
  refine ⟨first, rest, hpieces, ?_⟩
  rw [logicalLines, hjoined]
  exact pieces_append hpieces fun c hc => decide_eq_false fun h => hline (h ▸ hc)

/-- A line of comment : spaces, a pair of slashes and any text. -/
structure IsRemark (line : List Char) : Prop where
  unbroken : '\n' ∉ line
  slashes : ∃ spaces text, (∀ c ∈ spaces, c = ' ') ∧ line = spaces ++ '/' :: '/' :: text

/-- A line of code without the spaces in front, which does not go on in the next line. -/
structure IsStatement (line : List Char) : Prop where
  first : ∃ c, line.head? = some c ∧ isBlank c = false
  unbroken : '\n' ∉ line
  slash : '/' ∉ line
  last : line.getLast? ≠ some '\\'

/-- Whether a line goes on in the next one. -/
def goesOn (line : List Char) : Bool :=
  line.getLast? = some '\\'

theorem withoutRemark_cons {c : Char} (h : c ≠ '/') (cs : List Char) :
    withoutRemark (c :: cs) = c :: withoutRemark cs := by
  simp [withoutRemark, h]

theorem withoutRemark_of_not_mem : ∀ {line : List Char}, '/' ∉ line → withoutRemark line = line
  | [], _ => rfl
  | c :: line, h => by
    obtain ⟨hc, hline⟩ := List.ne_and_not_mem_of_not_mem_cons h
    rw [withoutRemark_cons (Ne.symm hc), withoutRemark_of_not_mem hline]

theorem withoutRemark_spaces (line : List Char) : ∀ {spaces : List Char}, (∀ c ∈ spaces, c = ' ') →
    withoutRemark (spaces ++ line) = spaces ++ withoutRemark line
  | [], _ => rfl
  | c :: spaces, h => by
    obtain ⟨rfl, hspaces⟩ := List.forall_mem_cons.mp h
    rw [List.cons_append, withoutRemark_cons (by decide), withoutRemark_spaces line hspaces,
      List.cons_append]

theorem dropWhile_spaces {spaces : List Char} (h : ∀ c ∈ spaces, c = ' ') (line : List Char) :
    (spaces ++ line).dropWhile (· = ' ') = line.dropWhile (· = ' ') :=
  List.dropWhile_append_of_pos fun c hc => decide_eq_true (h c hc)

/-- Nothing is said on a line of comment, whatever is joined to it. -/
theorem IsRemark.said_append {line : List Char} (h : IsRemark line) (more : List Char) :
    said (line ++ more) = [] := by
  obtain ⟨spaces, text, hspaces, rfl⟩ := h.slashes
  rw [said, List.append_assoc, withoutRemark_spaces _ hspaces, dropWhile_spaces hspaces]
  rfl

/-- A line of code says itself. -/
theorem IsStatement.said {line spaces : List Char} (h : IsStatement line)
    (hspaces : ∀ c ∈ spaces, c = ' ') : said (spaces ++ line) = line := by
  obtain ⟨c, hc, hblank⟩ := h.first
  obtain ⟨cs, rfl⟩ := List.head?_eq_some_iff.mp hc
  have hne : c ≠ ' ' := fun heq => by
    rw [heq] at hblank
    cases hblank
  rw [Header.said, withoutRemark_spaces _ hspaces, dropWhile_spaces hspaces,
    withoutRemark_of_not_mem h.slash, List.dropWhile_cons_of_neg (by simpa using hne)]

theorem IsRemark.of_concat {line : List Char} (h : IsRemark (line ++ ['\\'])) : IsRemark line where
  unbroken hmem := h.unbroken (List.mem_append_left _ hmem)
  slashes := by
    obtain ⟨spaces, text, hspaces, heq⟩ := h.slashes
    rcases List.eq_nil_or_concat text with rfl | ⟨init, last, rfl⟩
    · have hlast := congrArg List.getLast? heq
      simp at hlast
    · refine ⟨spaces, init, hspaces, (List.append_inj' (?_ : line ++ ['\\'] = _ ++ [last]) rfl).1⟩
      simpa using heq

/-- Nothing is read of a line of comment, nor of the line behind it if it goes on there. -/
theorem seen_remark {line : List Char} (h : IsRemark line) (swallowed : Bool) (code : List Char) :
    seen swallowed (line ++ '\n' :: code) = seen (goesOn line) code := by
  cases hopen : goesOn line with
  | false =>
    have hlast : line.getLast? ≠ some '\\' := of_decide_eq_false hopen
    have hsaid : said line = [] := by simpa using h.said_append []
    rw [seen, logicalLines_line h.unbroken hlast]
    cases swallowed <;> simp [seen, hsaid]
  | true =>
    obtain ⟨init, rfl⟩ := List.getLast?_eq_some_iff.mp (of_decide_eq_true hopen)
    obtain ⟨first, rest, hfirst, hglued⟩ := logicalLines_open h.of_concat.unbroken code
    rw [List.append_assoc, List.singleton_append, seen, seen, hglued, hfirst]
    cases swallowed <;> simp [h.of_concat.said_append]

/-- A line of code is read unless the comment in front has swallowed it. -/
theorem seen_statement {line spaces : List Char} (h : IsStatement line)
    (hspaces : ∀ c ∈ spaces, c = ' ') (swallowed : Bool) (code : List Char) :
    seen swallowed (spaces ++ line ++ '\n' :: code) =
      (if swallowed then [] else [line]) ++ seen false code := by
  obtain ⟨c, hc, hblank⟩ := h.first
  obtain ⟨cs, rfl⟩ := List.head?_eq_some_iff.mp hc
  have hbreak : '\n' ∉ spaces ++ c :: cs := by
    simp only [List.mem_append, not_or]
    exact ⟨fun hmem => absurd (hspaces _ hmem) (by decide), h.unbroken⟩
  have hlast : (spaces ++ c :: cs).getLast? ≠ some '\\' := by
    rw [List.getLast?_append, List.getLast?_cons, Option.some_or, ← List.getLast?_cons]
    exact h.last
  rw [seen, logicalLines_line hbreak hlast]
  cases swallowed
  · simp [seen, h.said hspaces, hblank]
  · simp [seen]

/-- Lines of comment swallow what is behind them if the last of them goes on. -/
theorem seen_remarks : ∀ {lines : List String}, (∀ line ∈ lines, IsRemark line.toList) →
    ∀ (swallowed : Bool) (code : List Char), seen swallowed ((unlines lines).toList ++ code) =
      seen ((lines.getLast?.map fun line => goesOn line.toList).getD swallowed) code
  | [], _, _, _ => rfl
  | line :: lines, h, swallowed, code => by
    obtain ⟨hline, hlines⟩ := List.forall_mem_cons.mp h
    have ih := seen_remarks hlines (goesOn line.toList) code
    have hsplit : (unlines (line :: lines)).toList ++ code =
        line.toList ++ '\n' :: ((unlines lines).toList ++ code) := by
      simp [toList_unlines]
    rw [hsplit, seen_remark hline, ih]
    cases hlast : lines.getLast? <;> simp [List.getLast?_cons, hlast]

/-! ## Comments -/

/-- Whether the last character of a comment that is not blank is a backslash. -/
def endsInBackslash (comment : String) : Bool :=
  (comment.toList.filter (!isBlank ·)).getLast? = some '\\'

/-- The lines of a comment in a definition are lines of comment to a compiler. -/
theorem isRemark_of_mem_commentLines {indent text line : String}
    (hindent : ∀ c ∈ indent.toList, c = ' ') (h : line ∈ commentLines indent text) :
    IsRemark line.toList := by
  have hspaces : '\n' ∉ indent.toList := fun hmem => absurd (hindent _ hmem) (by decide)
  unfold commentLines at h
  split at h
  · obtain rfl := List.mem_singleton.mp h
    exact ⟨by simp [hspaces], indent.toList, [], hindent, by simp⟩
  · obtain ⟨words, hwords, rfl⟩ := List.mem_map.mp h
    have hbreak : '\n' ∉ words.toList := fun hmem =>
      (isBlank_of_mem_wrapWords hwords hmem).elim (by decide) (by decide)
    exact ⟨by simp [hspaces, hbreak], indent.toList, ' ' :: words.toList, hindent, by simp⟩

/-- The lines of a comment go on in the code behind them if the comment ends in a backslash. -/
theorem goesOn_getLast_commentLines (indent text : String) :
    ((commentLines indent text).getLast?.map fun line => goesOn line.toList) =
      some (endsInBackslash text) := by
  have hlast := getLast?_wrapWords (commentWidth - (indent.utf8ByteSize + 3)) text
  rw [endsInBackslash, ← hlast, commentLines]
  split
  · next hnil =>
    rw [hnil]
    simp [goesOn]
  · next hne =>
    obtain ⟨words, hwords⟩ := Option.ne_none_iff_exists'.mp fun h => hne (List.getLast?_eq_none_iff.mp h)
    rw [List.getLast?_map, hwords]
    cases hend : words.toList.getLast? <;>
      simp [goesOn, hend, List.getLast?_append, List.getLast?_cons]

/-- What is read behind a comment. -/
theorem seen_commentLines {indent : String} (hindent : ∀ c ∈ indent.toList, c = ' ')
    (text : String) (swallowed : Bool) (code : List Char) :
    seen swallowed ((unlines (commentLines indent text)).toList ++ code) =
      seen (endsInBackslash text) code := by
  rw [seen_remarks fun line => isRemark_of_mem_commentLines hindent, goesOn_getLast_commentLines,
    Option.getD_some]

/-! ## Definitions -/

/-- A name that may stand in code : not empty, without blanks and slashes, as are all letters
and digits and the characters of `_<>*`. -/
structure IsName (s : String) : Prop where
  ne_empty : s ≠ ""
  isBlank : ∀ c ∈ s.toList, isBlank c = false
  slash : '/' ∉ s.toList

instance (s : String) : Decidable (IsName s) :=
  decidable_of_iff (s ≠ "" ∧ s.toList.all (!isBlank ·) ∧ '/' ∉ s.toList)
    ⟨fun ⟨hempty, hblank, hslash⟩ =>
      ⟨hempty, fun c hc => by simpa using List.all_eq_true.mp hblank c hc, hslash⟩,
    fun h => ⟨h.ne_empty, List.all_eq_true.mpr fun c hc => by simp [h.isBlank c hc], h.slash⟩⟩

/-- The line that declares a member. -/
def Member.declaration (m : Member) : String :=
  m.ty ++ " " ++ m.ident ++ ";"

/-- The first line of a definition. -/
def StructDef.head (d : StructDef) : String :=
  "struct " ++ d.name ++ " \x7b"

/-- The lines of code of a definition. -/
def StructDef.code (d : StructDef) : List String :=
  [d.head] ++ d.members.map Member.declaration ++ ["\x7d;"]

/-- The comments of a definition. -/
def StructDef.comments (d : StructDef) : List String :=
  d.comment :: d.members.filterMap Member.comment

/-- The lines of code of a definition that have no comment that ends in a backslash. -/
def StructDef.spared (d : StructDef) : List String :=
  (if endsInBackslash d.comment then [] else [d.head]) ++
    (d.members.filter fun m => !m.comment.any endsInBackslash).map Member.declaration ++ ["\x7d;"]

/-- The names in a definition may stand in code. -/
structure StructDef.IsNamed (d : StructDef) : Prop where
  name : IsName d.name
  members : ∀ m ∈ d.members, IsName m.ty ∧ IsName m.ident

theorem IsName.unbroken {s : String} (h : IsName s) : '\n' ∉ s.toList := fun hmem =>
  absurd (h.isBlank _ hmem) (by decide)

theorem isStatement_head {d : StructDef} (h : IsName d.name) : IsStatement d.head.toList where
  first := ⟨'s', by simp [StructDef.head], rfl⟩
  unbroken := by simp [StructDef.head, h.unbroken]
  slash := by simp [StructDef.head, h.slash]
  last := by simp [StructDef.head, List.getLast?_cons]

/-- The line of a member is a line of code if its names may stand in code. -/
theorem isStatement_declaration {m : Member} (hty : IsName m.ty) (hident : IsName m.ident) :
    IsStatement m.declaration.toList where
  first := by
    obtain ⟨c, cs, hcs⟩ := List.exists_cons_of_ne_nil fun h =>
      hty.ne_empty (String.toList_eq_nil_iff.mp h)
    exact ⟨c, by simp [Member.declaration, hcs], hty.isBlank c (by simp [hcs])⟩
  unbroken := by simp [Member.declaration, hty.unbroken, hident.unbroken]
  slash := by simp [Member.declaration, hty.slash, hident.slash]
  last := by simp [Member.declaration, List.getLast?_cons]

theorem isStatement_closing : IsStatement "\x7d;".toList where
  first := ⟨'\x7d', rfl, rfl⟩
  unbroken := by decide
  slash := by decide
  last := by decide

/-- The line of a member is read unless its comment swallows it. -/
theorem seen_member {m : Member} (hty : IsName m.ty) (hident : IsName m.ident)
    (code : List Char) : seen false ((unlines m.lines).toList ++ code) =
      (if m.comment.any endsInBackslash then [] else [m.declaration.toList]) ++ seen false code := by
  have hline (swallowed : Bool) : seen swallowed ("    ".toList ++ m.declaration.toList ++ '\n' :: code) =
      (if swallowed then [] else [m.declaration.toList]) ++ seen false code :=
    seen_statement (isStatement_declaration hty hident) (by simp) swallowed code
  have hspelled : (unlines ["    " ++ m.ty ++ " " ++ m.ident ++ ";"]).toList ++ code =
      "    ".toList ++ m.declaration.toList ++ '\n' :: code := by
    simp [toList_unlines, Member.declaration]
  rw [Member.lines, unlines_append, String.toList_append, List.append_assoc, hspelled]
  cases m.comment with
  | none => exact hline false
  | some comment =>
    rw [seen_commentLines (by simp), hline]
    rfl

/-- Of the lines of members those are read whose comments do not end in a backslash. -/
theorem seen_members : ∀ {ms : List Member}, (∀ m ∈ ms, IsName m.ty ∧ IsName m.ident) →
    ∀ code : List Char, seen false ((unlines (ms.flatMap Member.lines)).toList ++ code) =
      ((ms.filter fun m => !m.comment.any endsInBackslash).map fun m => m.declaration.toList) ++
        seen false code
  | [], _, _ => rfl
  | m :: ms, h, code => by
    obtain ⟨hm, hms⟩ := List.forall_mem_cons.mp h
    have ih := seen_members hms code
    rw [List.flatMap_cons, unlines_append, String.toList_append, List.append_assoc,
      seen_member hm.1 hm.2, ih, List.filter_cons]
    cases m.comment.any endsInBackslash <;> rfl

/-- How a definition reads : as the lines of its code whose comments do not end in a backslash.
That is all of its code exactly if no comment of it ends in a backslash. -/
structure SparesCode (d : StructDef) : Prop where
  reads : readCode d.render = d.spared
  reads_iff : readCode d.render = d.code ↔ ∀ comment ∈ d.comments, endsInBackslash comment = false

/-- A definition reads as the lines of its code that no comment swallows. -/
theorem readCode_render {d : StructDef} (h : d.IsNamed) : readCode d.render = d.spared := by
  let closing := "\x7d;".toList ++ ['\n']
  let members := (unlines (d.members.flatMap Member.lines)).toList
  have hcomment (code : List Char) :
      seen false ((unlines (if d.comment = "" then [] else commentLines "" d.comment)).toList ++ code) =
        seen (endsInBackslash d.comment) code := by
    split
    · next hempty => rw [hempty]; rfl
    · exact seen_commentLines (by simp) _ _ _
  have hhead (swallowed : Bool) (code : List Char) : seen swallowed (d.head.toList ++ '\n' :: code) =
      (if swallowed then [] else [d.head.toList]) ++ seen false code :=
    @seen_statement _ [] (isStatement_head h.name) (by simp) swallowed code
  have hclosing : seen false closing = ["\x7d;".toList] :=
    @seen_statement _ [] isStatement_closing (by simp) false []
  have hlines : d.render.toList =
      (unlines (if d.comment = "" then [] else commentLines "" d.comment)).toList ++
        (d.head.toList ++ '\n' :: (members ++ closing)) := by
    simp [StructDef.render, StructDef.lines, StructDef.head, unlines_append, unlines, members, closing]
  rw [readCode, hlines, hcomment, hhead, seen_members h.members, hclosing, StructDef.spared]
  cases endsInBackslash d.comment <;> simp

/-- All lines of a definition are spared exactly if no comment ends in a backslash. -/
theorem spared_eq_code_iff {d : StructDef} :
    d.spared = d.code ↔ ∀ comment ∈ d.comments, endsInBackslash comment = false := by
  have hmembers : (d.members.filter fun m => !m.comment.any endsInBackslash) = d.members ↔
      ∀ comment ∈ d.members.filterMap Member.comment, endsInBackslash comment = false := by
    rw [List.filter_eq_self]
    constructor
    · intro h comment hcomment
      obtain ⟨m, hm, heq⟩ := List.mem_filterMap.mp hcomment
      simpa [heq] using h m hm
    · intro h m hm
      cases heq : m.comment with
      | none => rfl
      | some comment =>
        have hcomment := h comment (List.mem_filterMap.mpr ⟨m, hm, heq⟩)
        simp [hcomment]
  rw [StructDef.comments, List.forall_mem_cons, ← hmembers]
  constructor
  · intro h
    have hlen := congrArg List.length h
    have hle := List.length_filter_le (fun m : Member => !m.comment.any endsInBackslash) d.members
    rw [StructDef.spared, StructDef.code] at hlen
    cases hcomment : endsInBackslash d.comment with
    | true =>
      simp only [hcomment, if_true, List.length_append, List.length_map, List.length_cons,
        List.length_nil] at hlen
      omega
    | false =>
      refine ⟨rfl, List.filter_eq_self.mpr (List.length_filter_eq_length_iff.mp ?_)⟩
      simp only [hcomment, Bool.false_eq_true, if_false, List.length_append, List.length_map,
        List.length_cons, List.length_nil] at hlen
      omega
  · rintro ⟨hcomment, hfilter⟩
    rw [StructDef.spared, hcomment, hfilter]
    rfl

/-- Every definition with names that may stand in code reads so, whatever its comments say. -/
theorem sparesCode {d : StructDef} (h : d.IsNamed) : SparesCode d where
  reads := readCode_render h
  reads_iff := by rw [readCode_render h, spared_eq_code_iff]

/-- A comment of two lines with backslashes at the end of the first, and members without one. -/
def folders : StructDef where
  name := "Folders"
  comment := "where files of the program are"
  members := [
    ⟨some "the folder that holds open documents, by default under C:\\Users\\ or D:\\Users",
      "char*", "documents"⟩,
    ⟨none, "Vec<char*>*", "others"⟩, ⟨some "", "int", "count"⟩]

/-- A backslash at the end of a line of comment does no harm if the comment goes on in another
line. -/
theorem sparesCode_folders : folders.IsNamed ∧ SparesCode folders ∧
    "    // the folder that holds open documents, by default under C:\\Users\\" ∈ folders.lines ∧
    readCode folders.render = folders.code := by
  have hnamed : folders.IsNamed := by
    refine ⟨by decide, fun m hm => ?_⟩
    simp only [folders, List.mem_cons, List.not_mem_nil, or_false] at hm
    rcases hm with rfl | rfl | rfl
    iterate 3 exact ⟨by decide, by decide⟩
  exact ⟨hnamed, sparesCode hnamed, by decide, (sparesCode hnamed).reads_iff.mpr (by decide)⟩

/-- A member with a comment that ends in a backslash. -/
def drive : StructDef := ⟨"Prefs", "", [⟨some "kept on D:\\", "int", "zoom"⟩]⟩

/-- A line whose comment ends in a backslash is swallowed. -/
theorem not_readCode_drive : drive.IsNamed ∧ readCode drive.render ≠ drive.code ∧
    readCode drive.render = ["struct Prefs \x7b", "\x7d;"] := by
  have hnamed : drive.IsNamed := by
    refine ⟨by decide, fun m hm => ?_⟩
    obtain rfl := List.mem_singleton.mp hm
    exact ⟨by decide, by decide⟩
  have hread := readCode_render hnamed
  rw [hread]
  exact ⟨hnamed, by decide, by decide⟩

end SettingsCompiler.Header
