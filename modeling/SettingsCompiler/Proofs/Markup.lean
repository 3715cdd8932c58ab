import SettingsCompiler.Docs.Plain
import SettingsCompiler.Proofs.Escaping
import SettingsCompiler.Proofs.Reading

/-!
# Documentation without its markup

A reader who takes the elements out of the HTML documentation and reads the entities has the
plain documentation before him, if no name has a character that HTML escapes elsewhere and no
comment has a link (`rendersAlike`).

The lines that begin and end a group of settings for experts are taken out as lines
(`withoutGroups`), the tags around comments wherever they stand (`withoutSpans`). Chunk by
chunk, what is left is the escaped plain text (`strip_chunk`) : the pieces of a comment are as
wide in both styles, so its lines end behind the same words (`wrap_map_escaped`), and names and
indentation are escaped as they are.
-/

namespace SettingsCompiler

namespace Docs

open Text

/-! ## Taking markup out -/

/-- The lines that begin and end a group of settings for experts. -/
def groupLines : List (List Char) :=
  ["<div class=expert>\n".toList, "</div>\n".toList]

/-- A text without the lines that begin and end groups. -/
def withoutGroups (cs : List Char) : List Char :=
  ((lineSpans cs).filter (· ∉ groupLines)).flatten

/-- What follows the tag of a comment at the beginning of a text. -/
def afterTag? (cs : List Char) : Option (List Char) :=
  match cs.dropPrefix? "<span class=cm id=\"".toList with
  | some rest => (rest.dropWhile (· ≠ '\x22')).dropPrefix? "\">".toList
  | none => cs.dropPrefix? "</span>".toList

theorem length_lt_of_afterTag? {cs after : List Char} (h : afterTag? cs = some after) :
    after.length < cs.length := by
  unfold afterTag? at h
  split at h
  · next rest hrest =>
    obtain ⟨p, rfl, hp⟩ := List.dropPrefix?_eq_some_iff.mp hrest
    obtain ⟨q, hq, hq'⟩ := List.dropPrefix?_eq_some_iff.mp h
    have hdrop := (List.dropWhile_suffix (· ≠ '\x22') (l := rest)).length_le
    have hlen := congrArg List.length hq
    have hq := congrArg List.length (eq_of_beq hq')
    simp at *
    omega
  · obtain ⟨q, rfl, hq'⟩ := List.dropPrefix?_eq_some_iff.mp h
    have hq := congrArg List.length (eq_of_beq hq')
    simp at *
    omega

/-- A text without the tags around comments. -/
def withoutSpans : List Char → List Char
  | [] => []
  | c :: cs =>
    match _ : afterTag? (c :: cs) with
    | some after => withoutSpans after
    | none => c :: withoutSpans cs
termination_by cs => cs.length
decreasing_by
  · exact length_lt_of_afterTag? ‹_›
  · exact Nat.lt_succ_self _

/-- The text that a reader of HTML sees. -/
def seen (html : String) : String :=
  String.ofList (decode (withoutSpans (withoutGroups html.toList)))

/-! ### Tags -/

theorem withoutSpans_of_afterTag? {cs after : List Char} (h : afterTag? cs = some after) :
    withoutSpans cs = withoutSpans after := by
  cases cs with
  | nil => simp [afterTag?, List.dropPrefix?] at h
  | cons c cs =>
    rw [withoutSpans]
    split
    · next h' => rw [Option.some.inj (h.symm.trans h')]
    · next h' =>
      rw [h] at h'
      cases h'

theorem withoutSpans_of_afterTag?_none {c : Char} {cs : List Char}
    (h : afterTag? (c :: cs) = none) : withoutSpans (c :: cs) = c :: withoutSpans cs := by
  rw [withoutSpans]
  split
  · next h' => rw [h] at h'; cases h'
  · rfl

theorem withoutSpans_cons {c : Char} (h : c ≠ '<') (cs : List Char) :
    withoutSpans (c :: cs) = c :: withoutSpans cs :=
  withoutSpans_of_afterTag?_none (by simp [afterTag?, List.dropPrefix?, h])

/-- A text with no tag in it stays, whatever comes behind it. -/
theorem withoutSpans_append {u : List Char} (h : '<' ∉ u) (v : List Char) :
    withoutSpans (u ++ v) = u ++ withoutSpans v := by
  induction u with
  | nil => rfl
  | cons c u ih =>
    obtain ⟨hc, hu⟩ := List.ne_and_not_mem_of_not_mem_cons h
    rw [List.cons_append, withoutSpans_cons (Ne.symm hc), ih hu, List.cons_append]

/-- The end of the element around a comment is taken out. -/
theorem withoutSpans_closing (v : List Char) :
    withoutSpans ("</span>".toList ++ v) = withoutSpans v := by
  have hopen : ("</span>".toList ++ v).dropPrefix? "<span class=cm id=\"".toList = none := rfl
  refine withoutSpans_of_afterTag? ?_
  rw [afterTag?, hopen]
  exact List.dropPrefix?_append_of_beq v BEq.rfl

/-- The beginning of that element is taken out, with any path as its id. -/
theorem withoutSpans_opening {p : List Char} (hp : '\x22' ∉ p) (v : List Char) :
    withoutSpans ("<span class=cm id=\"".toList ++ (p ++ ("\">".toList ++ v))) =
      withoutSpans v := by
  have hquote : (p ++ ("\">".toList ++ v)).dropWhile (· ≠ '\x22') = "\">".toList ++ v := by
    rw [List.dropWhile_append_of_pos fun c hc => ?_]
    · rfl
    · have hne : c ≠ '\x22' := fun h => hp (h ▸ hc)
      simpa using hne
  refine withoutSpans_of_afterTag? ?_
  rw [afterTag?, List.dropPrefix?_append_of_beq _ BEq.rfl]
  dsimp only
  rw [hquote]
  exact List.dropPrefix?_append_of_beq v BEq.rfl

/-! ### Lines -/

/-- Lines are taken out on either side of a line feed as if the other side were not there. -/
theorem withoutGroups_append (a b : List Char) :
    withoutGroups (a ++ '\n' :: b) = withoutGroups (a ++ ['\n']) ++ withoutGroups b := by
  rw [withoutGroups, lineSpans_append, List.filter_append, List.flatten_append]
  rfl

/-- Somewhere in the text a line of a group could begin. -/
inductive OpensGroup : List Char → Prop
  | entering {cs : List Char} : OpensGroup ('<' :: 'd' :: cs)
  | leaving {cs : List Char} : OpensGroup ('<' :: '/' :: 'd' :: cs)
  | later {c : Char} {cs : List Char} : OpensGroup cs → OpensGroup (c :: cs)

namespace OpensGroup

theorem of_append {u v : List Char} (hu : '<' ∉ u) (h : OpensGroup (u ++ v)) :
    OpensGroup v := by
  induction u with
  | nil => exact h
  | cons c u ih =>
    obtain ⟨hc, hu⟩ := List.ne_and_not_mem_of_not_mem_cons hu
    rw [List.cons_append] at h
    generalize u ++ v = w at h ih
    cases h with
    | entering => exact absurd rfl hc
    | leaving => exact absurd rfl hc
    | later h => exact ih hu h

theorem not_of_not_mem {cs : List Char} (hcs : '<' ∉ cs) : ¬OpensGroup cs := fun h => by
  rw [← List.append_nil cs] at h
  cases h.of_append hcs

theorem of_cons {c : Char} {cs : List Char} (hd : cs.head? ≠ some 'd')
    (hslash : cs.take 2 ≠ ['/', 'd']) (h : OpensGroup (c :: cs)) : OpensGroup cs := by
  cases h with
  | entering => exact absurd rfl hd
  | leaving => exact absurd rfl hslash
  | later h => exact h

theorem append_right {u : List Char} (h : OpensGroup u) (v : List Char) : OpensGroup (u ++ v) := by
  induction h with
  | entering => exact entering
  | leaving => exact leaving
  | later _ ih => exact later ih

theorem append_left {v : List Char} (h : OpensGroup v) : ∀ u : List Char, OpensGroup (u ++ v)
  | [] => h
  | _ :: u => later (append_left h u)

theorem of_mem_groupLines {l : List Char} (h : l ∈ groupLines) : OpensGroup l := by
  simp only [groupLines, List.mem_cons, List.not_mem_nil, or_false] at h
  rcases h with rfl | rfl
  · exact entering
  · exact leaving

end OpensGroup

/-- Nothing is taken out of a text in which no line of a group begins. -/
theorem withoutGroups_eq_self {cs : List Char} (h : ¬OpensGroup cs) : withoutGroups cs = cs := by
  have hall : ∀ l ∈ lineSpans cs, decide (l ∉ groupLines) = true := by
    intro l hl
    rw [decide_eq_true_eq]
    intro hgroup
    obtain ⟨before, after, hsplit⟩ := List.append_of_mem hl
    have hcs := flatten_lineSpans cs
    rw [hsplit, List.flatten_append, List.flatten_cons] at hcs
    have hopens := (OpensGroup.of_mem_groupLines hgroup).append_right after.flatten
    exact h (hcs ▸ hopens.append_left before.flatten)
  rw [withoutGroups, List.filter_eq_self.mpr hall, flatten_lineSpans]

/-! ## Escaped strings -/

@[simp] theorem toList_escape (s : String) :
    (escape s).toList = s.toList.flatMap escapeChar :=
  String.toList_ofList

theorem not_mem_escape {d : Char} (hd : d = '<' ∨ d = '>' ∨ d = '\x22') (s : String) :
    d ∉ (escape s).toList := by
  rw [toList_escape]
  exact not_mem_flatMap_escapeChar hd _

theorem escape_append (s t : String) : escape (s ++ t) = escape s ++ escape t := by
  apply String.toList_injective
  simp only [toList_escape, String.toList_append, List.flatMap_append]

/-- Every character of the string stands for itself. -/
def IsOrdinary (s : String) : Prop :=
  ∀ c ∈ s.toList, isOrdinary c = true

theorem IsOrdinary.escape_eq {s : String} (h : IsOrdinary s) : escape s = s := by
  apply String.toList_injective
  rw [toList_escape, flatMap_escapeChar_of_isOrdinary h]

theorem IsOrdinary.append {s t : String} (hs : IsOrdinary s) (ht : IsOrdinary t) :
    IsOrdinary (s ++ t) := by
  intro c hc
  rw [String.toList_append, List.mem_append] at hc
  exact hc.elim (hs c) (ht c)

theorem isOrdinary_indent : ∀ depth : Nat, IsOrdinary (indent depth)
  | 0 => by simp [IsOrdinary, indent, replicate]
  | depth + 1 => by
    have ih := isOrdinary_indent depth
    have hstep : IsOrdinary "  " := by simp [IsOrdinary, isOrdinary]
    exact hstep.append ih

theorem lt_not_mem_indent (depth : Nat) : '<' ∉ (indent depth).toList := fun h => by
  cases isOrdinary_indent depth _ h

theorem escape_joinWith {sep : String} (hsep : IsOrdinary sep) : ∀ ss : List String,
    joinWith sep (ss.map escape) = escape (joinWith sep ss)
  | [] => rfl
  | [_] => rfl
  | s :: t :: r => by
    have ih := escape_joinWith hsep (t :: r)
    rw [List.map_cons] at ih
    rw [List.map_cons, List.map_cons, joinWith, ih, joinWith, escape_append, escape_append,
      hsep.escape_eq]

/-! ## Escaped pieces -/

/-- A piece of plain text in HTML : as wide as before. -/
def escaped (p : Piece) : Piece :=
  ⟨escape p.text, p.width⟩

/-- Escaped pieces go to the same lines, as they are as wide as before. -/
theorem fillFrom_map_escaped (limit : Nat) : ∀ (ps run : List Piece) (used : Nat),
    fillFrom limit (run.map escaped) used (ps.map escaped) =
      (fillFrom limit run used ps).map (List.map escaped)
  | [], _, _ => rfl
  | p :: ps, run, used => by
    have hwidth : (escaped p).width = p.width := rfl
    rw [List.map_cons, fillFrom, fillFrom, hwidth]
    split
    · rw [← fillFrom_map_escaped limit ps, List.map_append]
      rfl
    · rw [List.map_cons, ← fillFrom_map_escaped limit ps]
      rfl

/-- A line of escaped pieces is an escaped line. -/
theorem spell_map_escaped (run : List Piece) : spell (run.map escaped) = escape (spell run) := by
  have hspace : IsOrdinary " " := by simp [IsOrdinary, isOrdinary]
  rw [spell, spell, ← escape_joinWith hspace, List.map_map, List.map_map]
  rfl

/-- Escaped pieces fill lines as the pieces do. -/
theorem wrap_map_escaped (limit : Nat) (ps : List Piece) :
    wrap limit (ps.map escaped) = (wrap limit ps).map escape := by
  have hfill : fill limit (ps.map escaped) = (fill limit ps).map (List.map escaped) := by
    cases ps with
    | nil => rfl
    | cons p ps => exact fillFrom_map_escaped limit ps [p] p.width
  rw [wrap, wrap, hfill, List.map_map, List.map_map]
  exact List.map_congr_left fun run _ => spell_map_escaped run

theorem wrap_ne_nil (limit : Nat) {ps : List Piece} (h : ps ≠ []) : wrap limit ps ≠ [] := by
  intro hwrap
  have hflat := flatten_fill limit ps
  rw [List.map_eq_nil_iff.mp hwrap] at hflat
  exact h hflat.symm

/-- The lines of a comment are the first line and its continuations. -/
theorem joinWith_indent (pre : String) : ∀ {ls : List String}, ls ≠ [] →
    pre ++ joinWith ("\n" ++ pre) ls ++ "\n" = unlines (ls.map (pre ++ ·))
  | [l], _ => by simp [joinWith, unlines]
  | l :: m :: ls, _ => by
    have ih := joinWith_indent pre (List.cons_ne_nil m ls)
    rw [List.map_cons, unlines, ← ih, joinWith]
    simp only [String.append_assoc]

/-! ## Spelling in two styles -/

/-- A text as HTML spells it, with tags in it, and the plain text that is left of it once the
tags are taken out and the entities read. -/
structure Strips (html plain : String) : Prop where
  ended : ∃ a, html.toList = a ++ ['\n']
  ungrouped : ¬OpensGroup html.toList
  spans : ∀ v, withoutSpans (html.toList ++ v) =
    plain.toList.flatMap escapeChar ++ withoutSpans v

/-- A line that is escaped has no tags. -/
theorem Strips.of_escape (line : String) : Strips (escape line ++ "\n") (line ++ "\n") where
  ended := ⟨line.toList.flatMap escapeChar, by rw [String.toList_append, toList_escape]; rfl⟩
  ungrouped := by
    refine OpensGroup.not_of_not_mem ?_
    simpa using not_mem_flatMap_escapeChar (.inl rfl) line.toList
  spans v := by
    have hno := not_mem_flatMap_escapeChar (.inl rfl) (line ++ "\n").toList
    rw [← withoutSpans_append hno, ← toList_escape, escape_append]
    rfl

theorem Strips.of_isOrdinary {line : String} (h : IsOrdinary line) :
    Strips (line ++ "\n") (line ++ "\n") := by
  have := Strips.of_escape line
  rwa [h.escape_eq] at this

/-- Of the element around a comment its escaped text is left. -/
theorem Strips.of_span {pre path body : String} (hpre : IsOrdinary pre) :
    Strips (pre ++ "<span class=cm id=\"" ++ escape path ++ "\">" ++ escape body ++ "</span>\n")
      (pre ++ body ++ "\n") := by
  have hpre' : '<' ∉ pre.toList := fun h => by cases hpre _ h
  have hpath : '\x22' ∉ path.toList.flatMap escapeChar :=
    not_mem_flatMap_escapeChar (.inr (.inr rfl)) _
  have hpath' : '<' ∉ path.toList.flatMap escapeChar := not_mem_flatMap_escapeChar (.inl rfl) _
  have hbody : '<' ∉ body.toList.flatMap escapeChar := not_mem_flatMap_escapeChar (.inl rfl) _
  have hhtml : (pre ++ "<span class=cm id=\"" ++ escape path ++ "\">" ++ escape body ++
      "</span>\n").toList = pre.toList ++ ("<span class=cm id=\"".toList ++
        (path.toList.flatMap escapeChar ++ ("\">".toList ++
          (body.toList.flatMap escapeChar ++ ("</span>".toList ++ ['\n']))))) := by
    have hend : "</span>\n".toList = "</span>".toList ++ ['\n'] := rfl
    simp only [String.toList_append, toList_escape, hend, List.append_assoc]
  have hplain : (pre ++ body ++ "\n").toList.flatMap escapeChar =
      pre.toList ++ (body.toList.flatMap escapeChar ++ ['\n']) := by
    rw [String.toList_append, String.toList_append, List.flatMap_append, List.flatMap_append,
      flatMap_escapeChar_of_isOrdinary hpre, List.append_assoc]
    rfl
  constructor
  · rw [hhtml]
    simp only [← List.append_assoc]
    exact ⟨_, rfl⟩
  · have hopen : "<span class=cm id=\"".toList = '<' :: 's' :: "pan class=cm id=\"".toList := rfl
    have hclose : "</span>".toList = '<' :: '/' :: 's' :: "pan>".toList := rfl
    rw [hhtml, hopen, hclose]
    intro h
    have h := ((h.of_append hpre').of_cons (by simp) (by simp)).of_append (u := 's' :: _) (by simp)
    have h := ((h.of_append hpath').of_append (by simp)).of_append hbody
    exact OpensGroup.not_of_not_mem (by simp) (h.of_cons (by simp) (by simp))
  · intro v
    rw [hhtml, hplain]
    simp only [List.append_assoc]
    rw [withoutSpans_append hpre', withoutSpans_opening hpath, withoutSpans_append hbody,
      withoutSpans_closing, List.singleton_append, withoutSpans_cons (by decide),
      List.singleton_append]

theorem map_html_of_words {tokens : List Token} (h : ∀ t ∈ tokens, ∃ w, t = .word w) :
    tokens.map Token.html = (tokens.map fun t => Piece.plain t.plain).map escaped := by
  rw [List.map_map]
  refine List.map_congr_left fun t ht => ?_
  obtain ⟨w, rfl⟩ := h t ht
  rfl

/-- A chunk without links in its comment, named by ordinary characters. -/
def Chunk.IsPlain : Chunk → Prop
  | comment _ _ tokens => tokens ≠ [] ∧ ∀ t ∈ tokens, ∃ w, t = .word w
  | value _ name _ => IsOrdinary name
  | opening _ (some name) => IsOrdinary name
  | opening _ none => True
  | closing _ => True
  | boundary _ => True

/-- Without its markup a comment of words is the plain comment, escaped. -/
theorem strip_comment {width depth : Nat} {path : String} {tokens : List Token}
    (hne : tokens ≠ []) (hwords : ∀ t ∈ tokens, ∃ w, t = .word w) :
    Strips ((Chunk.comment depth path tokens).render .html width)
      ((Chunk.comment depth path tokens).render .plain width) := by
  have hpre := isOrdinary_indent depth
  have hsep : IsOrdinary ("\n" ++ indent depth) :=
    IsOrdinary.append (by simp [IsOrdinary, isOrdinary]) hpre
  have hmark : IsOrdinary "; " := by simp [IsOrdinary, isOrdinary]
  let ps := tokens.map fun t => Piece.plain t.plain
  let room := width - ((indent depth).length + markerWidth)
  have hlines : wrap room ps ≠ [] := wrap_ne_nil room (by simpa [ps] using hne)
  have hhtml : (Chunk.comment depth path tokens).render .html width =
      indent depth ++ "<span class=cm id=\"" ++ escape path ++ "\">" ++
        escape (joinWith ("\n" ++ indent depth) ((wrap room ps).map ("; " ++ ·))) ++
        "</span>\n" := by
    have hmarked : ((wrap room ps).map ("; " ++ ·)).map escape =
        (wrap room (tokens.map Token.html)).map ("; " ++ ·) := by
      rw [map_html_of_words hwords, wrap_map_escaped, List.map_map, List.map_map]
      refine List.map_congr_left fun line _ => ?_
      rw [Function.comp_apply, Function.comp_apply, escape_append, hmark.escape_eq]
    rw [← escape_joinWith hsep, hmarked]
    rfl
  have hplain : (Chunk.comment depth path tokens).render .plain width =
      indent depth ++ joinWith ("\n" ++ indent depth) ((wrap room ps).map ("; " ++ ·)) ++ "\n" := by
    rw [joinWith_indent _ (by simpa using hlines), List.map_map]
    simp only [Chunk.render, Style.plain, Function.comp_def, String.append_assoc]
    rfl
  rw [hhtml, hplain]
  exact Strips.of_span hpre

/-- Without its markup a line with a default is the plain line, escaped. -/
theorem strip_value {width depth : Nat} {name text : String} (hname : IsOrdinary name) :
    Strips ((Chunk.value depth name text).render .html width)
      ((Chunk.value depth name text).render .plain width) := by
  have htext : indent depth ++ name ++ " = " ++ escape text =
      escape (indent depth ++ name ++ " = " ++ text) := by
    have hequals : IsOrdinary " = " := by simp [IsOrdinary, isOrdinary]
    simp only [escape_append, (isOrdinary_indent depth).escape_eq, hname.escape_eq,
      hequals.escape_eq]
  have htrim (s : String) : trimmedLine (escape s) =
      escape (String.ofList (trimEnd s.toList)) ++ "\n" := by
    rw [trimmedLine, toList_escape, trimEnd_flatMap_escapeChar, escape, String.toList_ofList]
  have hhtml : (Chunk.value depth name text).render .html width =
      trimmedLine (indent depth ++ name ++ " = " ++ escape text) := rfl
  rw [hhtml, htext, htrim]
  exact Strips.of_escape _

/-- Without its markup a chunk that begins or ends no group is the plain chunk, escaped. -/
theorem strip_chunk (width : Nat) {c : Chunk} (hc : c.IsPlain)
    (hboundary : ∀ entering, c ≠ .boundary entering) :
    Strips (c.render .html width) (c.render .plain width) := by
  have line (depth : Nat) {s : String} (hs : IsOrdinary s) :
      Strips (indent depth ++ (s ++ "\n")) (indent depth ++ (s ++ "\n")) := by
    rw [← String.append_assoc]
    exact Strips.of_isOrdinary ((isOrdinary_indent depth).append hs)
  have hbracket : IsOrdinary "[" := by simp [IsOrdinary, isOrdinary]
  cases c with
  | comment depth path tokens => exact strip_comment hc.1 hc.2
  | value depth name text => exact strip_value hc
  | opening depth name =>
    cases name with
    | none => exact line depth hbracket
    | some name =>
      have hblock : IsOrdinary (name ++ " [") :=
        IsOrdinary.append hc (by simp [IsOrdinary, isOrdinary])
      have hrender (style : Style) : (Chunk.opening depth (some name)).render style width =
          indent depth ++ (name ++ " [" ++ "\n") := by
        simp only [Chunk.render, String.append_assoc]
        rfl
      rw [hrender, hrender]
      exact line depth hblock
  | closing depth => exact line depth (s := "]") (by simp [IsOrdinary, isOrdinary])
  | boundary entering => exact absurd rfl (hboundary entering)

theorem withoutGroups_boundary (entering : Bool) (v : List Char) :
    withoutGroups ((Style.html.boundary entering).toList ++ v) = withoutGroups v := by
  have hsplit : ∃ a, (Style.html.boundary entering).toList = a ++ ['\n'] := by
    cases entering
    · exact ⟨"</div>".toList, rfl⟩
    · exact ⟨"<div class=expert>".toList, rfl⟩
  have hline : withoutGroups (Style.html.boundary entering).toList = [] := by
    cases entering <;> rfl
  obtain ⟨a, ha⟩ := hsplit
  rw [ha, List.append_assoc, List.singleton_append, withoutGroups_append, ← ha, hline,
    List.nil_append]

/-- Without its markup an outline in HTML is the escaped plain documentation. -/
theorem strip_chunks (width : Nat) : ∀ {cs : List Chunk}, (∀ c ∈ cs, c.IsPlain) →
    withoutSpans (withoutGroups (renderChunks .html width cs).toList) =
      (renderChunks .plain width cs).toList.flatMap escapeChar
  | [], _ => by simp [renderChunks, withoutGroups, lineSpans, withoutSpans]
  | c :: cs, h => by
    obtain ⟨hc, hcs⟩ := List.forall_mem_cons.mp h
    have ih := strip_chunks width hcs
    rw [renderChunks, renderChunks, String.toList_append, String.toList_append,
      List.flatMap_append, ← ih]
    by_cases hboundary : ∃ entering, c = .boundary entering
    · obtain ⟨entering, rfl⟩ := hboundary
      exact congrArg withoutSpans (withoutGroups_boundary entering _)
    · have hstrips := strip_chunk width hc fun entering h => hboundary ⟨entering, h⟩
      obtain ⟨a, ha⟩ := hstrips.ended
      rw [← hstrips.spans, ha, List.append_assoc, List.singleton_append, withoutGroups_append,
        ← ha, withoutGroups_eq_self hstrips.ungrouped]

/-! ## Comments without links -/

theorem tokensFrom_none : ∀ {ws : List (List Char)}, (∀ w ∈ ws, '[' ∉ w) →
    tokensFrom none ws = ws.map fun w => .word (String.ofList w)
  | [], _ => rfl
  | w :: ws, h => by
    obtain ⟨hw, hws⟩ := List.forall_mem_cons.mp h
    rw [List.map_cons, ← tokensFrom_none hws, tokensFrom]
    exact splitAtChar_eq_none_iff.mpr hw

/-- A text without brackets has no links. -/
theorem tokenize_of_not_mem {text : String} (h : '[' ∉ text.toList) :
    ∀ t ∈ tokenize text, ∃ w, t = .word w := by
  intro t ht
  have hwords : ∀ w ∈ words text.toList, '[' ∉ w := fun w hw hmem =>
    h (mem_of_mem_pieces hmem (List.mem_filter.mp hw).1).1
  rw [tokenize, tokensFrom_none hwords] at ht
  obtain ⟨w, -, rfl⟩ := List.mem_map.mp ht
  exact ⟨_, rfl⟩

end Docs

namespace Setting

open Docs

/-! ## Documented settings -/

/-- `x` is a setting that documentation shows where it shows `s`, with a block or a line of its
own. -/
inductive Displays : Setting → Setting → Prop
  | self {s : Setting} : Displays s s
  | inside {info : Info} {children : List Setting} {c x : Setting}
      (hkind : info.kind = .struct ∨ info.kind = .array) (hc : c ∈ children)
      (hdoc : c.isDocumented = true) (hx : Displays c x) : Displays (group info children) x

/-- A setting without links in its comment, named by ordinary characters. -/
def IsPlain (s : Setting) : Prop :=
  IsOrdinary s.info.name ∧ '[' ∉ s.docText.toList

theorem IsPlain.commentChunks {s : Setting} (h : s.IsPlain) (depth : Nat) (path : String) :
    ∀ c ∈ s.commentChunks depth path, c.IsPlain := by
  intro c hc
  unfold Setting.commentChunks at hc
  split at hc
  · cases hc
  · next hne =>
    obtain rfl := List.mem_singleton.mp hc
    exact ⟨hne, tokenize_of_not_mem h.2⟩

mutual

/-- The chunks of a setting are plain if all settings displayed with it are. -/
theorem isPlain_bodyChunks : ∀ {s : Setting} {depth : Nat} {path : String} {body : List Chunk},
    (∀ x, s.Displays x → x.IsPlain) → bodyChunks depth path s = .ok body →
    ∀ c ∈ body, c.IsPlain
  | leaf info value, depth, path, body, hplain, h => by
    have hname : IsOrdinary info.name := (hplain _ .self).1
    rw [bodyChunks] at h
    split at h
    iterate 3 cases h
    · obtain rfl := Except.ok.inj h
      nofun
    · obtain rfl := Except.ok.inj h
      exact List.forall_mem_singleton.mpr hname
  | group info children, depth, path, body, hplain, h => by
    have hname : IsOrdinary info.name := (hplain _ .self).1
    have inside (hkind : info.kind = .struct ∨ info.kind = .array) {depth : Nat}
        {inner : List Chunk} (hinner : listChunks depth path false children = .ok inner) :
        ∀ c ∈ inner, c.IsPlain :=
      isPlain_listChunks (fun d hd hdoc x hx => hplain x (.inside hkind hd hdoc hx)) hinner
    rw [bodyChunks] at h
    split at h
    · next hstruct =>
      split at h
      · cases h
      · next inner hinner =>
        obtain rfl := Except.ok.inj h
        simp only [List.forall_mem_append, List.forall_mem_cons, List.cons_append]
        exact ⟨hname, inside (.inl hstruct) hinner, trivial, nofun⟩
    · next harray =>
      split at h
      · cases h
      · next inner hinner =>
        obtain rfl := Except.ok.inj h
        simp only [List.forall_mem_append, List.forall_mem_cons, List.cons_append]
        exact ⟨hname, trivial, inside (.inr harray) hinner, trivial, trivial, nofun⟩
    · split at h
      · cases h
      · obtain rfl := Except.ok.inj h
        exact List.forall_mem_singleton.mpr hname
    · obtain rfl := Except.ok.inj h
      nofun
    · cases h

/-- The chunks of a list are plain if all settings displayed with its documented settings are. -/
theorem isPlain_listChunks : ∀ {cs : List Setting} {depth : Nat} {path : String} {expert : Bool}
    {chunks : List Chunk}, (∀ d ∈ cs, d.isDocumented = true → ∀ x, d.Displays x → x.IsPlain) →
    listChunks depth path expert cs = .ok chunks → ∀ c ∈ chunks, c.IsPlain
  | [], depth, path, expert, chunks, hplain, h => by
    rw [listChunks] at h
    obtain rfl := Except.ok.inj h
    cases expert
    · nofun
    · exact List.forall_mem_singleton.mpr trivial
  | d :: ds, depth, path, expert, chunks, hplain, h => by
    obtain ⟨hd, hds⟩ := List.forall_mem_cons.mp hplain
    rcases listChunks_cons_ok h with ⟨-, hrest⟩ | ⟨body, rest, hdoc, hbody, hrest, rfl⟩
    · exact isPlain_listChunks hds hrest
    · have hboundary : ∀ c ∈ if d.info.expert = expert then []
          else [Chunk.boundary d.info.expert], c.IsPlain := by
        split
        · nofun
        · exact List.forall_mem_singleton.mpr trivial
      simp only [List.forall_mem_append]
      exact ⟨⟨⟨hboundary, (hd hdoc d .self).commentChunks _ _⟩,
        isPlain_bodyChunks (hd hdoc) hbody⟩, isPlain_listChunks hds hrest⟩

end

/-- `x` is a setting that the documentation of a root shows. -/
def IsShownIn (root x : Setting) : Prop :=
  ∃ c ∈ root.children, c.isDocumented = true ∧ c.Displays x

/-- The HTML documentation of a root without its markup is the plain documentation. -/
theorem rendersAlike {root : Setting} {width : Nat} {text : String}
    (hplain : ∀ x, IsShownIn root x → x.IsPlain) (h : renderText width root = .ok text) :
    ∃ html, renderHtml width root = .ok html ∧ seen html = text := by
  unfold renderText render at h
  cases houtline : root.outline with
  | error e =>
    rw [houtline] at h
    cases h
  | ok chunks =>
    rw [houtline] at h
    obtain rfl := Except.ok.inj h
    refine ⟨renderChunks .html width chunks, by rw [renderHtml, render, houtline]; rfl, ?_⟩
    have hchunks : ∀ c ∈ chunks, c.IsPlain :=
      isPlain_listChunks (fun c hc hdoc x hx => hplain x ⟨c, hc, hdoc, hx⟩)
        (listChunks_of_outline houtline)
    rw [seen, strip_chunks width hchunks, decode_flatMap_escapeChar, String.ofList_toList]

/-- Characters that HTML escapes in comments and in a default, and settings for experts. -/
def player : Setting :=
  .makeGroup "Player" .struct [
    .make "Title" .string (.text "\x22A\x22 & B") "shown as <title>",
    (Setting.makeGroup "Window" .struct [.make "Zoom" .int (.int 3) "1 < zoom & zoom < 9"]
      "").asExpert] ""

/-- The documentation of `player`, 16 columns wide. -/
def playerText : String :=
  Text.unlines ["; shown as", "; <title>", "Title = \x22A\x22 & B", "Window [",
    "  ; 1 < zoom &", "  ; zoom < 9", "  Zoom = 3", "]"]

/-- The HTML of `player` has escaped characters, groups and comments on several lines, and reads
as the plain text. -/
theorem rendersAlike_player :
    (∀ x, IsShownIn player x → x.IsPlain) ∧ renderText 16 player = .ok playerText ∧
      ∃ html, renderHtml 16 player = .ok html ∧ seen html = playerText := by
  have hplain : ∀ x, IsShownIn player x → x.IsPlain := by
    rintro x ⟨c, hc, -, hx⟩
    have hc : c ∈ [_, _] := hc
    simp only [List.mem_cons, List.not_mem_nil, or_false] at hc
    rcases hc with rfl | rfl
    · cases hx with
      | self => exact ⟨List.all_eq_true.mp rfl, by decide⟩
    · cases hx with
      | self => exact ⟨List.all_eq_true.mp rfl, by decide⟩
      | inside _ hc _ hx =>
        obtain rfl := List.mem_singleton.mp hc
        cases hx with
        | self => exact ⟨List.all_eq_true.mp rfl, by decide⟩
  have htext : renderText 16 player = .ok playerText := by decide
  exact ⟨hplain, htext, rendersAlike hplain htext⟩

end Setting
end SettingsCompiler
