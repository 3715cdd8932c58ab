import SettingsCompiler.Proofs.Stamping
import SettingsCompiler.Proofs.Site
import Mathlib.Data.List.Infix

/-!
# Marks filled in once

A mark is a word in braces, and a text with marks can be filled in by one reading from left to
right : each mark is replaced whole, what is put in its place is not read, and all else is kept
(`Fills`). Stamping replaces one mark after the other, and the second replacement reads what the
first put in.

That makes no difference if what is put in has no brace but a digit. It cannot be part of a mark
then, since marks have braces at their ends only and no digit between them : an occurrence of a
mark in a text that is filled in was there before (`Fills.isPrefix_of_isPrefix`). So the two
replacements are one reading (`fills_substitute_substitute`), and no mark is left
(`Fills.not_infix`). `stampsOnce` says this of a version stamped into a root.
-/

namespace SettingsCompiler

namespace Text

/-! ## One reading of a text -/

/-- The second text is the first with marks filled in. It is read once, from left to right : a
mark is replaced whole, and a character where no mark starts is kept. -/
inductive Fills (marks : List (List Char × List Char)) : List Char → List Char → Prop
  | nil : Fills marks [] []
  | mark {pat new cs ds : List Char} : (pat, new) ∈ marks → Fills marks cs ds →
      Fills marks (pat ++ cs) (new ++ ds)
  | keep {c : Char} {cs ds : List Char} : (∀ m ∈ marks, ¬m.1 <+: c :: cs) → Fills marks cs ds →
      Fills marks (c :: cs) (c :: ds)

section

variable {pat new cs ds : List Char} {c : Char}

/-- An occurrence at the front is replaced, and what is put in is not read again. -/
theorem substitute_append_self (hne : pat ≠ []) (new cs : List Char) :
    substitute pat new (pat ++ cs) = new ++ substitute pat new cs := by
  obtain ⟨c, p, rfl⟩ := List.exists_cons_of_ne_nil hne
  rw [List.cons_append, substitute, substituteFrom, if_pos (by simp), substituteFrom_eq_drop]
  simp

theorem substitute_cons (h : ¬pat <+: c :: cs) (new : List Char) :
    substitute pat new (c :: cs) = c :: substitute pat new cs := by
  rw [substitute, substituteFrom, if_neg (by simpa using fun _ => h), substitute]

/-- A text where the pattern cannot start is passed over. -/
theorem substitute_append {a : List Char} (ha : ∀ c ∈ a, pat.head? ≠ some c)
    (hne : pat ≠ []) (new cs : List Char) :
    substitute pat new (a ++ cs) = a ++ substitute pat new cs := by
  induction a with
  | nil => rfl
  | cons c a ih =>
    obtain ⟨hc, ha⟩ := List.forall_mem_cons.mp ha
    have hpat : ¬pat <+: c :: (a ++ cs) := by
      obtain ⟨d, p, rfl⟩ := List.exists_cons_of_ne_nil hne
      intro h
      exact hc (by rw [(List.cons_prefix_cons.mp h).1]; rfl)
    rw [List.cons_append, substitute_cons hpat, ih ha, List.cons_append]

/-- A pattern that does not occur is not replaced. -/
theorem substitute_of_not_infix (h : ¬pat <:+: cs) (new : List Char) :
    substitute pat new cs = cs := by
  induction cs with
  | nil => rfl
  | cons c cs ih =>
    rw [List.infix_cons_iff, not_or] at h
    rw [substitute_cons h.1, ih h.2]

/-- What is behind an occurrence at the start of a text is shorter. -/
theorem length_le_of_append_eq_cons {rest : List Char} (hne : pat ≠ [])
    (h : pat ++ rest = c :: cs) : rest.length ≤ cs.length := by
  have hlen := congrArg List.length h
  have hpos := List.length_pos_of_ne_nil hne
  rw [List.length_append, List.length_cons] at hlen
  omega

/-- Replacing one pattern is one reading. -/
theorem fills_substitute (hne : pat ≠ []) (new : List Char) :
    ∀ cs : List Char, Fills [(pat, new)] cs (substitute pat new cs)
  | [] => .nil
  | c :: cs => by
    by_cases h : pat <+: c :: cs
    · obtain ⟨rest, hrest⟩ := h
      have hlen : rest.length ≤ cs.length := length_le_of_append_eq_cons hne hrest
      rw [← hrest, substitute_append_self hne]
      exact .mark (List.mem_singleton_self _) (fills_substitute hne new rest)
    · rw [substitute_cons h]
      exact .keep (by simpa using h) (fills_substitute hne new cs)
termination_by cs => cs.length

end

/-! ## Marks, and texts that are no part of one -/

/-- A word in braces, without a brace or a digit between them. -/
def IsMark (pat : List Char) : Prop :=
  ∃ word, pat = '\x7b' :: (word ++ ['\x7d']) ∧
    ∀ c ∈ word, c ≠ '\x7b' ∧ c ≠ '\x7d' ∧ c.isDigit = false

/-- A text with a digit and without braces. -/
structure IsInert (new : List Char) : Prop where
  solid : ∀ c ∈ new, c ≠ '\x7b' ∧ c ≠ '\x7d'
  digit : ∃ c ∈ new, c.isDigit = true

instance (new : List Char) : Decidable (IsInert new) :=
  decidable_of_iff
    ((new.all fun c => c ≠ '\x7b' ∧ c ≠ '\x7d') = true ∧ new.any Char.isDigit = true)
    ⟨fun h => ⟨by simpa using h.1, by simpa using h.2⟩,
      fun h => ⟨by simpa using h.solid, by simpa using h.digit⟩⟩

section

variable {marks : List (List Char × List Char)} {pat pat' new new' cs ds : List Char}

theorem isMark_of_all (word : List Char)
    (h : (word.all fun c => c ≠ '\x7b' ∧ c ≠ '\x7d' ∧ c.isDigit = false) = true) :
    IsMark ('\x7b' :: (word ++ ['\x7d'])) :=
  ⟨word, rfl, by simpa using h⟩

theorem IsMark.ne_nil (h : IsMark pat) : pat ≠ [] := by
  obtain ⟨word, rfl, -⟩ := h
  exact List.cons_ne_nil _ _

theorem IsMark.head? (h : IsMark pat) : pat.head? = some '\x7b' := by
  obtain ⟨word, rfl, -⟩ := h
  rfl

/-- Two marks at one place are the same. -/
theorem IsMark.eq_of_isPrefix (h : IsMark pat) (h' : IsMark pat') (hpat : pat <+: cs)
    (hpat' : pat' <+: cs) : pat = pat' := by
  obtain ⟨word, rfl, hword⟩ := h
  obtain ⟨word', rfl, hword'⟩ := h'
  obtain ⟨t, rfl⟩ := hpat
  obtain ⟨t', ht⟩ := hpat'
  -- The word of a mark is what stands before the first closing brace.
  have htake {w : List Char} (hw : ∀ c ∈ w, c ≠ '\x7b' ∧ c ≠ '\x7d' ∧ c.isDigit = false)
      (t : List Char) : (w ++ '\x7d' :: t).takeWhile (· ≠ '\x7d') = w := by
    rw [List.takeWhile_append_of_pos fun c hc => by simpa using (hw c hc).2.1]
    simp
  have heq : word' ++ '\x7d' :: t' = word ++ '\x7d' :: t := by simpa using ht
  rw [← htake hword t, ← heq, htake hword' t']

/-- The rest of a mark behind a character of it does not start with what is put in for a mark. -/
theorem not_prefix_of_isInert {word : List Char} (hword : ∀ c ∈ word, c.isDigit = false)
    (hnew : IsInert new) (ds : List Char) : ¬word ++ ['\x7d'] <+: new ++ ds := by
  intro h
  obtain hle | hle := List.prefix_or_prefix_of_prefix h (List.prefix_append new ds)
  · have hmem : '\x7d' ∈ new := hle.subset (by simp)
    exact (hnew.solid _ hmem).2 rfl
  · obtain ⟨c, hc, hdigit⟩ := hnew.digit
    obtain hc | hc := List.mem_append.mp (hle.subset hc)
    · rw [hword c hc] at hdigit
      cases hdigit
    · rw [List.mem_singleton.mp hc] at hdigit
      cases hdigit

/-- The rest of a mark that a filled text starts with was there before. -/
theorem Fills.isPrefix_of_isPrefix (hinert : ∀ m ∈ marks, IsInert m.2) (h : Fills marks cs ds) :
    ∀ {word : List Char}, (∀ c ∈ word, c.isDigit = false) → word ++ ['\x7d'] <+: ds →
      word ++ ['\x7d'] <+: cs := by
  induction h with
  | nil => exact fun _ hpre => hpre
  | mark hmem _ _ =>
    intro word hword hpre
    exact absurd hpre (not_prefix_of_isInert hword (hinert _ hmem) _)
  | @keep c cs ds _ _ ih =>
    intro word hword hpre
    cases word with
    | nil =>
      rw [List.nil_append, List.cons_prefix_cons] at hpre
      exact List.cons_prefix_cons.mpr ⟨hpre.1, List.nil_prefix⟩
    | cons b word =>
      rw [List.cons_append, List.cons_prefix_cons] at hpre ⊢
      exact ⟨hpre.1, ih (List.forall_mem_cons.mp hword).2 hpre.2⟩

/-- A mark that a filled text has at a character kept was there before. -/
theorem Fills.mark_isPrefix_of_isPrefix {c : Char} (hpat : IsMark pat)
    (hinert : ∀ m ∈ marks, IsInert m.2) (h : Fills marks cs ds) (hpre : pat <+: c :: ds) :
    pat <+: c :: cs := by
  obtain ⟨word, rfl, hword⟩ := hpat
  rw [List.cons_prefix_cons] at hpre ⊢
  exact ⟨hpre.1, h.isPrefix_of_isPrefix hinert (fun c hc => (hword c hc).2.2) hpre.2⟩

/-- An occurrence does not start in a text without its first character. -/
theorem infix_of_infix_append {b : Char} (hhead : pat.head? = some b) (hb : b ∉ cs)
    (h : pat <:+: cs ++ ds) : pat <:+: ds := by
  obtain hin | hin | ⟨front, back, rfl, hfront, hback⟩ := List.infix_append_iff.mp h
  · exact absurd (hin.subset (List.mem_of_mem_head? hhead)) hb
  · exact hin
  · cases front with
    | nil => exact hback.isInfix
    | cons c front =>
      obtain rfl : c = b := Option.some.inj hhead
      exact absurd (hfront.subset List.mem_cons_self) hb

/-- A filled text has none of the marks. -/
theorem Fills.not_infix (hmarks : ∀ m ∈ marks, IsMark m.1 ∧ IsInert m.2)
    (hpat : ∃ new, (pat, new) ∈ marks) (h : Fills marks cs ds) : ¬pat <:+: ds := by
  obtain ⟨new, hmem⟩ := hpat
  have hpat := (hmarks _ hmem).1
  induction h with
  | nil => exact fun hin => hpat.ne_nil (List.infix_nil.mp hin)
  | @mark pat' new' cs ds hmem' _ ih =>
    intro hin
    refine ih (infix_of_infix_append hpat.head? (fun hopen => ?_) hin)
    exact ((hmarks _ hmem').2.solid _ hopen).1 rfl
  | @keep c cs ds hkeep hfill ih =>
    intro hin
    obtain hpre | hin := List.infix_cons_iff.mp hin
    · refine hkeep _ hmem ?_
      exact hfill.mark_isPrefix_of_isPrefix hpat (fun m hm => (hmarks m hm).2) hpre
    · exact ih hin

/-- What a text with marks is filled in to is determined. -/
theorem Fills.unique (hmarks : ∀ m ∈ marks, IsMark m.1)
    (hkeys : ∀ m ∈ marks, ∀ m' ∈ marks, m.1 = m'.1 → m.2 = m'.2) (h : Fills marks cs ds) :
    ∀ {es : List Char}, Fills marks cs es → ds = es := by
  induction h with
  | nil =>
    intro es h'
    generalize hcs : ([] : List Char) = cs at h'
    cases h' with
    | nil => rfl
    | mark hmem _ => exact absurd (List.append_eq_nil_iff.mp hcs.symm).1 (hmarks _ hmem).ne_nil
    | keep => cases hcs
  | @mark pat new cs ds hmem _ ih =>
    intro es h'
    generalize hcs : pat ++ cs = text at h'
    cases h' with
    | nil => exact absurd (List.append_eq_nil_iff.mp hcs).1 (hmarks _ hmem).ne_nil
    | @mark pat' new' cs' es' hmem' hfill' =>
      obtain rfl := (hmarks _ hmem).eq_of_isPrefix (hmarks _ hmem') (List.prefix_append pat cs)
        (hcs ▸ List.prefix_append pat' cs')
      obtain rfl := List.append_cancel_left hcs
      obtain rfl : new = new' := hkeys _ hmem _ hmem' rfl
      rw [ih hfill']
    | keep hkeep _ => exact absurd (hcs ▸ List.prefix_append pat cs) (hkeep _ hmem)
  | @keep c cs ds hkeep _ ih =>
    intro es h'
    generalize hcs : c :: cs = text at h'
    cases h' with
    | nil => cases hcs
    | @mark pat' new' cs' es' hmem' _ =>
      exact absurd (hcs ▸ List.prefix_append pat' cs') (hkeep _ hmem')
    | keep _ hfill' =>
      obtain ⟨rfl, rfl⟩ := List.cons.inj hcs
      rw [ih hfill']

/-- Another mark is passed over. -/
theorem substitute_mark (hpat : IsMark pat) (hpat' : IsMark pat') (hne : pat ≠ pat')
    (new cs : List Char) : substitute pat new (pat' ++ cs) = pat' ++ substitute pat new cs := by
  have hstart : ¬pat <+: pat' ++ cs := fun h =>
    hne (hpat.eq_of_isPrefix hpat' h (List.prefix_append pat' cs))
  obtain ⟨word, rfl, hword⟩ := hpat'
  rw [List.cons_append] at hstart ⊢
  rw [substitute_cons hstart, List.cons_append,
    substitute_append (fun c hc hhead => ?_) hpat.ne_nil]
  obtain rfl : '\x7b' = c := Option.some.inj (hpat.head?.symm.trans hhead)
  obtain hc | hc := List.mem_append.mp hc
  · exact (hword _ hc).1 rfl
  · exact absurd (List.mem_singleton.mp hc) (by decide)

/-- Replacing one mark and then another is one reading, if what is put in for the first is no
part of a mark. -/
theorem fills_substitute_substitute (hpat : IsMark pat) (hpat' : IsMark pat') (hne : pat ≠ pat')
    (hnew : IsInert new) (new' : List Char) : ∀ cs : List Char,
      Fills [(pat, new), (pat', new')] cs (substitute pat' new' (substitute pat new cs))
  | [] => .nil
  | c :: cs => by
    by_cases hstart : pat <+: c :: cs
    · obtain ⟨rest, hrest⟩ := hstart
      have hlen : rest.length ≤ cs.length := length_le_of_append_eq_cons hpat.ne_nil hrest
      have hpass : ∀ d ∈ new, pat'.head? ≠ some d := fun d hd hhead =>
        (hnew.solid d hd).1 (Option.some.inj (hhead.symm.trans hpat'.head?))
      rw [← hrest, substitute_append_self hpat.ne_nil, substitute_append hpass hpat'.ne_nil]
      exact .mark List.mem_cons_self (fills_substitute_substitute hpat hpat' hne hnew new' rest)
    · by_cases hstart' : pat' <+: c :: cs
      · obtain ⟨rest, hrest⟩ := hstart'
        have hlen : rest.length ≤ cs.length := length_le_of_append_eq_cons hpat'.ne_nil hrest
        rw [← hrest, substitute_mark hpat hpat' hne, substitute_append_self hpat'.ne_nil]
        exact .mark (List.mem_cons_of_mem _ List.mem_cons_self)
          (fills_substitute_substitute hpat hpat' hne hnew new' rest)
      · -- The second mark does not start here in what the first replacement gives either.
        have hlater : ¬pat' <+: c :: substitute pat new cs := fun hpre =>
          hstart' ((fills_substitute hpat.ne_nil new cs).mark_isPrefix_of_isPrefix hpat'
            (by simpa using hnew) hpre)
        rw [substitute_cons hstart, substitute_cons hlater]
        exact .keep (by simp [hstart, hstart'])
          (fills_substitute_substitute hpat hpat' hne hnew new' cs)
termination_by cs => cs.length

end

end Text

open Text

/-! ## The marks of a comment -/

theorem isMark_versionMark : IsMark versionMark :=
  isMark_of_all "version".toList rfl

theorem isMark_docIdMark : IsMark docIdMark :=
  isMark_of_all "doc_id".toList rfl

/-- A version with a digit and without braces. -/
abbrev IsPlainVersion (version : String) : Prop :=
  IsInert version.toList

theorem toList_docId (version : String) :
    (Name.docId version).toList = version.toList.map fun c => if c = '.' then '-' else c :=
  String.toList_ofList

theorem IsPlainVersion.docId {version : String} (h : IsPlainVersion version) :
    IsInert (Name.docId version).toList := by
  rw [toList_docId]
  constructor
  · intro c hc
    obtain ⟨d, hd, rfl⟩ := List.mem_map.mp hc
    split
    · decide
    · exact h.solid d hd
  · obtain ⟨d, hd, hdigit⟩ := h.digit
    refine ⟨d, List.mem_map.mpr ⟨d, hd, if_neg ?_⟩, hdigit⟩
    rintro rfl
    cases hdigit

/-- What a version puts in for the marks of a comment. -/
def versionMarks (version : String) : List (List Char × List Char) :=
  [(versionMark, version.toList), (docIdMark, (Name.docId version).toList)]

theorem isMark_of_mem_versionMarks {version : String} :
    ∀ m ∈ versionMarks version, IsMark m.1 := by
  simp [versionMarks, isMark_versionMark, isMark_docIdMark]

theorem isInert_of_mem_versionMarks {version : String} (h : IsPlainVersion version) :
    ∀ m ∈ versionMarks version, IsInert m.2 := by
  simp [versionMarks, h, h.docId]

/-- Stamping a comment fills in its marks. -/
theorem fills_stampText {version : String} (h : IsPlainVersion version) (comment : String) :
    Fills (versionMarks version) comment.toList (stampText version comment).toList := by
  rw [stampText, String.toList_ofList]
  exact fills_substitute_substitute isMark_versionMark isMark_docIdMark (by decide) h _ _

/-- A comment is filled in by stamping it, and in no other way. -/
theorem fills_iff {version : String} (h : IsPlainVersion version) {comment : String}
    {text : List Char} : Fills (versionMarks version) comment.toList text ↔
      text = (stampText version comment).toList := by
  constructor
  · have hkeys : ∀ m ∈ versionMarks version, ∀ m' ∈ versionMarks version,
        m.1 = m'.1 → m.2 = m'.2 := by
      have hne : versionMark ≠ docIdMark := by decide
      simp [versionMarks, hne, hne.symm]
    exact fun hfill =>
      hfill.unique isMark_of_mem_versionMarks hkeys (fills_stampText h comment)
  · rintro rfl
    exact fills_stampText h comment

/-- A text without marks. -/
structure IsUnmarked (text : String) : Prop where
  version : ¬versionMark <:+: text.toList
  docId : ¬docIdMark <:+: text.toList

/-- A stamped comment has no marks. -/
theorem isUnmarked_stampText {version : String} (h : IsPlainVersion version) (comment : String) :
    IsUnmarked (stampText version comment) := by
  have hfill := fills_stampText h comment
  have hmarks : ∀ m ∈ versionMarks version, IsMark m.1 ∧ IsInert m.2 := fun m hm =>
    ⟨isMark_of_mem_versionMarks m hm, isInert_of_mem_versionMarks h m hm⟩
  exact ⟨hfill.not_infix hmarks ⟨_, List.mem_cons_self⟩,
    hfill.not_infix hmarks ⟨_, List.mem_cons_of_mem _ List.mem_cons_self⟩⟩

/-- Any version leaves a text without marks as it is. -/
theorem stampText_of_isUnmarked {text : String} (h : IsUnmarked text) (version : String) :
    stampText version text = text := by
  rw [stampText, substitute_of_not_infix h.version, substitute_of_not_infix h.docId,
    String.ofList_toList]

/-! ## A stamped root -/

namespace Setting

/-- The second entry is the first, but if that is a comment, it says what the comment is filled
in to, in documentation too. -/
inductive FilledEntry (version : String) : Setting → Setting → Prop
  | other {c : Setting} : c.isComment = false → FilledEntry version c c
  | comment {c : Setting} {text : String} : c.isComment = true →
      (∀ t, Fills (versionMarks version) c.info.comment.toList t ↔ t = text.toList) →
      FilledEntry version c (c.mapInfo fun i => { i with comment := text, docComment := text })

/-- The second root is the first, its own comments filled in. -/
inductive FilledRoot (version : String) : Setting → Setting → Prop
  | leaf {info : Info} {value : Value} : FilledRoot version (leaf info value) (leaf info value)
  | group {info : Info} {cs cs' : List Setting} :
      List.Forall₂ (FilledEntry version) cs cs' →
      FilledRoot version (group info cs) (group info cs')

/-- Of a stamped entry, what is filled in is its comment. -/
theorem filledEntry_stampEntry {version : String} (h : IsPlainVersion version) (c : Setting) :
    FilledEntry version c (c.stampEntry version) := by
  cases hcom : c.isComment with
  | false =>
    rw [stampEntry_of_not_isComment hcom]
    exact .other hcom
  | true =>
    rw [stampEntry, if_pos hcom]
    cases c <;> exact .comment hcom fun t => fills_iff h

/-- A stamped root has its own comments filled in, and all else as it was. -/
theorem filledRoot_stamp {version : String} (h : IsPlainVersion version) (root : Setting) :
    FilledRoot version root (root.stamp version) := by
  cases root with
  | leaf info value => exact .leaf
  | group info cs =>
    refine .group (List.forall₂_map_right_iff.mpr ?_)
    exact List.forall₂_same.mpr fun c _ => filledEntry_stampEntry h c

/-- A comment of a stamped root has no marks, and says the same in documentation. -/
theorem isUnmarked_of_mem_stamp {version : String} (h : IsPlainVersion version)
    {root c : Setting} (hc : c ∈ (root.stamp version).children) (hcom : c.isComment = true) :
    IsUnmarked c.info.comment ∧ c.info.docComment = c.info.comment := by
  cases root with
  | leaf info value => cases hc
  | group info cs =>
    obtain ⟨d, -, rfl⟩ := List.mem_map.mp hc
    rw [info_stampEntry ((isComment_stampEntry version d).symm.trans hcom)]
    exact ⟨isUnmarked_stampText h _, rfl⟩

/-- An entry without marks stays what it is. -/
theorem stampEntry_of_isUnmarked {c : Setting} (h : c.isComment = true → IsUnmarked c.info.comment ∧
    c.info.docComment = c.info.comment) (version : String) : c.stampEntry version = c := by
  cases hcom : c.isComment with
  | false => exact stampEntry_of_not_isComment hcom version
  | true =>
    obtain ⟨hmarks, hdoc⟩ := h hcom
    have hinfo : { c.info with
        comment := stampText version c.info.comment,
        docComment := stampText version c.info.comment } = c.info := by
      rw [stampText_of_isUnmarked hmarks]
      exact congrArg (fun doc => { c.info with docComment := doc }) hdoc.symm
    rw [stampEntry, if_pos hcom]
    cases c with
    | leaf info value => exact congrArg (leaf · value) hinfo
    | group info cs => exact congrArg (group · cs) hinfo

/-- What a version stamped into a root does : the root's own comments are filled in by one
reading each, and nothing else is changed ; no mark is left in them ; and whatever version is
stamped in later, the root stays as it is. -/
structure StampsOnce (version : String) (root : Setting) : Prop where
  filled : FilledRoot version root (root.stamp version)
  unmarked : ∀ c ∈ (root.stamp version).children, c.isComment = true →
    IsUnmarked c.info.comment ∧ IsUnmarked c.info.docComment
  final : ∀ later, (root.stamp version).stamp later = root.stamp version

/-- For a version with a digit and without braces, stamping fills in each mark of a root once and
for all : a later version finds nothing to fill in. -/
theorem stampsOnce {version : String} (h : IsPlainVersion version) (root : Setting) :
    StampsOnce version root where
  filled := filledRoot_stamp h root
  unmarked c hc hcom := by
    obtain ⟨hmarks, hdoc⟩ := isUnmarked_of_mem_stamp h hc hcom
    exact ⟨hmarks, hdoc ▸ hmarks⟩
  final later := by
    have hentry : ∀ c ∈ (root.stamp version).children, c.stampEntry later = c := fun c hc =>
      stampEntry_of_isUnmarked (isUnmarked_of_mem_stamp h hc) later
    cases root with
    | leaf info value => rfl
    | group info cs =>
      exact congrArg (group info) ((List.map_congr_left hentry).trans (List.map_id' _))

/-- A root whose comment has a mark inside another, and marks in a place that is no comment. -/
def linked : Setting :=
  .makeGroup "Prefs" .struct [
    .make "" .comment .null "see \x7bdoc_\x7bversion\x7did\x7d, settings\x7bdoc_id\x7d.html",
    .make "Theme" .string (.text "\x7bversion\x7d") ""] ""

/-- A mark inside another is filled in, what is left around it is no mark, and marks elsewhere
stay. -/
theorem stampsOnce_linked : IsPlainVersion "3.6" ∧ StampsOnce "3.6" linked := by
  have h : IsPlainVersion "3.6" := by decide
  exact ⟨h, stampsOnce h linked⟩

/-- A version without a digit can complete a mark around it. -/
example : stampText "" "\x7bdoc_\x7bversion\x7did\x7d" = "" := by decide

end Setting

end SettingsCompiler
