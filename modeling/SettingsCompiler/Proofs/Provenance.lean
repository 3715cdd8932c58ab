import SettingsCompiler.Proofs.Markup
import Mathlib.Data.List.SplitLengths

/-!
# Where the characters of a page come from

The HTML documentation is spelled by segments (`Segment`) : what the style writes of its own,
the texts of the schema that it escapes, and names, which it writes as they are
(`spelled_segments`). Paths, words, the parts of links and defaults are all escaped, so no
character of theirs delimits an element or an attribute, and every `&` begins an entity.

A name has no such protection. The page injects nothing exactly if the names of the settings
shown could have been escaped already (`IsHarmless`). In the one direction, tags and entities
stay what they are whatever comes behind them (`Guarded.append`) ; in the other, a blank follows
every name, and no entity has one (`Guarded.of_blank`).
-/

namespace SettingsCompiler

namespace Docs

open Text

/-! ## Segments -/

/-- A stretch of the HTML documentation : written by the style itself, a text of the schema
that is escaped, or a name that is written as it is. -/
inductive Segment
  | mark (s : String)
  | text (s : String)
  | name (s : String)
deriving DecidableEq, Repr

namespace Segment

/-- The characters of a segment on the page. -/
def chars : Segment → List Char
  | mark s => s.toList
  | text s => s.toList.flatMap escapeChar
  | name s => s.toList

/-- Whether a segment is a text or a name of the schema. -/
def isSource : Segment → Bool
  | mark _ => false
  | text _ | name _ => true

end Segment

/-- The characters of a list of segments. -/
def spelled (segs : List Segment) : List Char :=
  segs.flatMap Segment.chars

@[simp] theorem spelled_nil : spelled [] = [] := rfl

@[simp] theorem spelled_cons (seg : Segment) (segs : List Segment) :
    spelled (seg :: segs) = seg.chars ++ spelled segs := rfl

@[simp] theorem spelled_append (segs segs' : List Segment) :
    spelled (segs ++ segs') = spelled segs ++ spelled segs' :=
  List.flatMap_append

/-- The segments of a token. -/
def Token.segments : Token → List Segment
  | word text => [.text text]
  | link lead label url tail =>
    [.text lead, .mark "<a href=\"", .text url, .mark "\">", .text label, .mark "</a>", .text tail]

/-- The tokens of a comment, cut where its lines are. -/
def runs (room : Nat) (tokens : List Token) : List (List Token) :=
  ((fill room (tokens.map Token.html)).map List.length).splitLengths tokens

/-- The segments of a line of a comment. -/
def lineSegments (run : List Token) : List Segment :=
  .mark "; " :: List.intercalate [.mark " "] (run.map Token.segments)

/-- The segments of a default behind the sign in front of it. -/
def valueSegments (text : String) : List Segment :=
  match trimEnd text.toList with
  | [] => []
  | kept => [.mark " ", .text (String.ofList kept)]

/-- The segments of a chunk on lines of some width. -/
def Chunk.segments (width : Nat) : Chunk → List Segment
  | comment depth path tokens =>
    let room := width - ((indent depth).length + markerWidth)
    [.mark (indent depth), .mark "<span class=cm id=\"", .text path, .mark "\">"] ++
      List.intercalate [.mark "\n", .mark (indent depth)] ((runs room tokens).map lineSegments) ++
      [.mark "</span>", .mark "\n"]
  | value depth name text =>
    [.mark (indent depth), .name name, .mark " ="] ++ valueSegments text ++ [.mark "\n"]
  | opening depth (some name) => [.mark (indent depth), .name name, .mark " [\n"]
  | opening depth none => [.mark (indent depth), .mark "[\n"]
  | closing depth => [.mark (indent depth), .mark "]\n"]
  | boundary entering => [.mark (Style.html.boundary entering)]

/-! ### The segments spell the page -/

theorem spelled_intercalate (sep : List Segment) : ∀ ls : List (List Segment),
    spelled (List.intercalate sep ls) = List.intercalate (spelled sep) (ls.map spelled)
  | [] => rfl
  | [l] => by simp [List.intercalate]
  | l :: l' :: ls => by
    have ih := spelled_intercalate sep (l' :: ls)
    simp only [List.intercalate, List.map_cons, List.intersperse_cons_cons, List.flatten_cons,
      spelled_append] at ih ⊢
    rw [ih]

/-- The segments of a token spell its HTML. -/
theorem spelled_tokenSegments (t : Token) : spelled t.segments = t.html.text.toList := by
  cases t <;> simp [Token.segments, Token.html, Segment.chars]

/-- Cut like its pieces, a list of tokens has the pieces of the lines. -/
theorem map_splitLengths {f : Token → Piece} : ∀ {rs : List (List Piece)} {tokens : List Token},
    rs.flatten = tokens.map f → ((rs.map List.length).splitLengths tokens).map (List.map f) = rs
  | [], _, _ => rfl
  | run :: rs, tokens, h => by
    rw [List.flatten_cons] at h
    have htake : (tokens.take run.length).map f = run := by
      rw [List.map_take, ← h, List.take_left]
    have hdrop : rs.flatten = (tokens.drop run.length).map f := by
      rw [List.map_drop, ← h, List.drop_left]
    simp only [List.map_cons, List.splitLengths_cons]
    rw [htake, map_splitLengths hdrop]

/-- The segments of a line of a comment spell the line. -/
theorem spelled_lineSegments (run : List Token) :
    spelled (lineSegments run) = ("; " ++ spell (run.map Token.html)).toList := by
  rw [lineSegments, spelled_cons, spelled_intercalate, spell, String.toList_append,
    toList_joinWith, List.map_map, List.map_map, List.map_map]
  congr 2
  exact List.map_congr_left fun t _ => spelled_tokenSegments t

/-- The blanks behind the default of a line are trimmed, at most up to the sign in front. -/
theorem spelled_valueSegments (pre text : List Char) :
    trimEnd (pre ++ " = ".toList ++ text.flatMap escapeChar) =
      pre ++ " =".toList ++ spelled (valueSegments (String.ofList text)) := by
  have hsplit : pre ++ " = ".toList ++ text.flatMap escapeChar =
      (pre ++ " =".toList) ++ (" ".toList ++ text.flatMap escapeChar) := by
    simp
  have hsign : trimEnd (pre ++ " =".toList) = pre ++ " =".toList := by
    have hconcat : pre ++ " =".toList = (pre ++ [' ']) ++ ['='] := by simp
    rw [hconcat, trimEnd_concat_of_not_isBlank rfl]
  have hblank : trimEnd " ".toList = [] := rfl
  rw [hsplit, trimEnd_append, trimEnd_append, hsign, hblank, trimEnd_flatMap_escapeChar,
    valueSegments, String.toList_ofList]
  cases hkept : trimEnd text with
  | nil => simp [hkept]
  | cons c kept =>
    have hne : escapeChar c ≠ [] := by
      rcases escapeChar_cases c with rfl | rfl | rfl | rfl | hc
      iterate 4 decide
      rw [escapeChar_of_isOrdinary hc]
      exact List.cons_ne_nil _ _
    simp [hkept, Segment.chars, hne]

/-- The segments of a chunk spell the chunk. -/
theorem Chunk.spelled_segments (width : Nat) (c : Chunk) :
    spelled (c.segments width) = (c.render .html width).toList := by
  cases c with
  | comment depth path tokens =>
    have hlines (room : Nat) : ((runs room tokens).map lineSegments).map spelled =
        ((wrap room (tokens.map Token.html)).map ("; " ++ ·)).map String.toList := by
      have hruns : (runs room tokens).map (List.map Token.html) =
          fill room (tokens.map Token.html) := map_splitLengths (flatten_fill _ _)
      rw [wrap, ← hruns]
      simp only [List.map_map]
      exact List.map_congr_left fun run _ => spelled_lineSegments run
    simp only [Chunk.segments, Chunk.render, Style.html, spelled_append, spelled_cons,
      spelled_nil, spelled_intercalate, String.toList_append, toList_joinWith, Segment.chars,
      toList_escape]
    rw [hlines]
    simp
  | value depth name text =>
    have hline := spelled_valueSegments ((indent depth).toList ++ name.toList) text.toList
    rw [String.ofList_toList] at hline
    simp only [Chunk.segments, Chunk.render, Style.html, trimmedLine, spelled_append,
      spelled_cons, spelled_nil, String.toList_append, String.toList_ofList, Segment.chars,
      toList_escape]
    rw [hline]
    simp
  | opening depth name => cases name <;> simp [Chunk.segments, Chunk.render, Segment.chars]
  | closing depth => simp [Chunk.segments, Chunk.render, Segment.chars]
  | boundary entering => simp [Chunk.segments, Chunk.render, Segment.chars]

/-! ## Tags and entities -/

/-- Whether a character delimits an element or an attribute. -/
def isDelimiter (c : Char) : Bool :=
  c = '<' || c = '>' || c = '\x22'

/-- The tags of the documentation that have no attribute with a text of the schema. -/
def plainTags : List String :=
  ["</span>", "<div class=expert>", "</div>", "</a>"]

/-- The tags of the documentation up to the quoted text in them. -/
def quotingTags : List String :=
  ["<span class=cm id=\"", "<a href=\""]

/-- The four entities. -/
def entities : List String :=
  ["&amp;", "&lt;", "&gt;", "&quot;"]

/-- A text that begins with a tag of the documentation. -/
inductive BeginsTag : List Char → Prop
  | plain {tag : String} {rest : List Char} : tag ∈ plainTags → BeginsTag (tag.toList ++ rest)
  | quoting {tag : String} {quoted rest : List Char} : tag ∈ quotingTags →
      (∀ c ∈ quoted, isDelimiter c = false) →
      BeginsTag (tag.toList ++ (quoted ++ ("\">".toList ++ rest)))

/-- A text that begins with an entity. -/
def BeginsEntity (cs : List Char) : Prop :=
  ∃ e ∈ entities, e.toList <+: cs

/-- Every `<` in the text begins a tag, and every `&` an entity. -/
def Guarded : List Char → Prop
  | [] => True
  | c :: cs => (c = '<' → BeginsTag (c :: cs)) ∧ (c = '&' → BeginsEntity (c :: cs)) ∧ Guarded cs

/-- The character leads the text, and no `<` or `&` comes behind it. -/
def Leads (c : Char) (s : String) : Prop :=
  ∃ rest, s.toList = c :: rest ∧ '<' ∉ rest ∧ '&' ∉ rest

theorem leads_of_mem_tags {tag : String} (h : tag ∈ plainTags ++ quotingTags) :
    Leads '<' tag := by
  simp only [plainTags, quotingTags, List.cons_append, List.nil_append, List.mem_cons,
    List.not_mem_nil, or_false] at h
  rcases h with rfl | rfl | rfl | rfl | rfl | rfl <;> exact ⟨_, rfl, by decide, by decide⟩

theorem exists_of_mem_plainTags {tag : String} (h : tag ∈ plainTags) :
    ∃ u, tag.toList = '<' :: (u ++ ['>']) ∧ '>' ∉ u ∧ '\x22' ∉ u := by
  simp only [plainTags, List.mem_cons, List.not_mem_nil, or_false] at h
  rcases h with rfl | rfl | rfl | rfl
  · exact ⟨"/span".toList, by simp⟩
  · exact ⟨"div class=expert".toList, by simp⟩
  · exact ⟨"/div".toList, by simp⟩
  · exact ⟨"/a".toList, by simp⟩

theorem exists_of_mem_quotingTags {tag : String} (h : tag ∈ quotingTags) :
    ∃ u, tag.toList = '<' :: (u ++ ['\x22']) ∧ '>' ∉ u ∧ '\x22' ∉ u := by
  simp only [quotingTags, List.mem_cons, List.not_mem_nil, or_false] at h
  rcases h with rfl | rfl
  · exact ⟨"span class=cm id=".toList, by simp⟩
  · exact ⟨"a href=".toList, by simp⟩

theorem leads_of_mem_entities {e : String} (h : e ∈ entities) : Leads '&' e := by
  simp only [entities, List.mem_cons, List.not_mem_nil, or_false] at h
  rcases h with rfl | rfl | rfl | rfl <;> exact ⟨_, rfl, by decide, by decide⟩

/-- A text that begins with a tag does so whatever comes behind it. -/
theorem BeginsTag.append {u : List Char} (h : BeginsTag u) (v : List Char) :
    BeginsTag (u ++ v) := by
  cases h with
  | plain htag =>
    rw [List.append_assoc]
    exact .plain htag
  | quoting htag hquoted =>
    simp only [List.append_assoc]
    exact .quoting htag hquoted

theorem BeginsTag.exists_tag {cs : List Char} (h : BeginsTag cs) :
    ∃ tag ∈ plainTags ++ quotingTags, tag.toList <+: cs := by
  cases h with
  | plain htag => exact ⟨_, List.mem_append_left _ htag, List.prefix_append _ _⟩
  | quoting htag _ => exact ⟨_, List.mem_append_right _ htag, List.prefix_append _ _⟩

/-- A text that begins with an entity does so whatever comes behind it. -/
theorem BeginsEntity.append {u : List Char} (h : BeginsEntity u) (v : List Char) :
    BeginsEntity (u ++ v) := by
  obtain ⟨e, he, hu⟩ := h
  exact ⟨e, he, hu.trans (List.prefix_append u v)⟩

namespace Guarded

/-- Guarded texts are guarded one behind the other. -/
theorem append : ∀ {u v : List Char}, Guarded u → Guarded v → Guarded (u ++ v)
  | [], _, _, hv => hv
  | _ :: _, v, ⟨htag, hentity, hu⟩, hv =>
    ⟨fun hc => (htag hc).append v, fun hc => (hentity hc).append v, hu.append hv⟩

/-- The end of a guarded text is guarded. -/
theorem of_append : ∀ {u v : List Char}, Guarded (u ++ v) → Guarded v
  | [], _, h => h
  | _ :: _, _, h => of_append h.2.2

/-- A text with neither is guarded. -/
theorem of_not_mem : ∀ {cs : List Char}, '<' ∉ cs → '&' ∉ cs → Guarded cs
  | [], _, _ => trivial
  | c :: cs, hlt, hamp => by
    obtain ⟨hc, hlt⟩ := List.ne_and_not_mem_of_not_mem_cons hlt
    obtain ⟨hc', hamp⟩ := List.ne_and_not_mem_of_not_mem_cons hamp
    exact ⟨fun h => absurd h.symm hc, fun h => absurd h.symm hc', of_not_mem hlt hamp⟩

/-- Whatever stands in front of a blank is guarded without it : no entity has a blank. -/
theorem of_blank : ∀ {u v : List Char}, '<' ∉ u → Guarded (u ++ ' ' :: v) → Guarded u
  | [], _, _, _ => trivial
  | c :: u, v, hlt, ⟨_, hentity, hu⟩ => by
    obtain ⟨hc, hlt⟩ := List.ne_and_not_mem_of_not_mem_cons hlt
    refine ⟨fun h => absurd h.symm hc, fun h => ?_, of_blank hlt hu⟩
    obtain ⟨e, he, hpre⟩ := hentity h
    refine ⟨e, he, ?_⟩
    have hblank : ' ' ∉ e.toList := by
      simp only [entities, List.mem_cons, List.not_mem_nil, or_false] at he
      rcases he with rfl | rfl | rfl | rfl <;> decide
    rcases List.prefix_or_prefix_of_prefix hpre (List.prefix_append (c :: u) (' ' :: v)) with
      hin | ⟨w, hw⟩
    · exact hin
    · cases w with
      | nil => exact ⟨[], by rw [← hw, List.append_nil, List.append_nil]⟩
      | cons d w =>
        obtain ⟨rest, hrest⟩ := hpre
        rw [← hw, List.append_assoc] at hrest
        obtain ⟨rfl, -⟩ := List.cons.inj (List.append_cancel_left hrest)
        exact absurd (hw ▸ List.mem_append_right _ List.mem_cons_self) hblank

theorem of_entity {e : String} (he : e ∈ entities) : Guarded e.toList := by
  obtain ⟨rest, heq, hlt, hamp⟩ := leads_of_mem_entities he
  rw [heq]
  exact ⟨nofun, fun _ => ⟨e, he, heq ▸ List.prefix_rfl⟩, of_not_mem hlt hamp⟩

theorem of_plainTag {tag : String} (htag : tag ∈ plainTags) : Guarded tag.toList := by
  obtain ⟨rest, heq, hlt, hamp⟩ := leads_of_mem_tags (List.mem_append_left _ htag)
  have hbegins : BeginsTag (tag.toList ++ []) := .plain htag
  rw [List.append_nil, heq] at hbegins
  rw [heq]
  exact ⟨fun _ => hbegins, nofun, of_not_mem hlt hamp⟩

/-- A tag around a guarded text is guarded if nothing in the text delimits it. -/
theorem of_quotingTag {tag : String} (htag : tag ∈ quotingTags) {quoted : List Char}
    (hquoted : Guarded quoted) (hdelim : ∀ c ∈ quoted, isDelimiter c = false) :
    Guarded (tag.toList ++ (quoted ++ "\">".toList)) := by
  obtain ⟨rest, heq, hlt, hamp⟩ := leads_of_mem_tags (List.mem_append_right _ htag)
  have hbegins : BeginsTag (tag.toList ++ (quoted ++ ("\">".toList ++ []))) :=
    .quoting htag hdelim
  rw [List.append_nil, heq] at hbegins
  rw [heq]
  exact ⟨fun _ => hbegins, nofun,
    (of_not_mem hlt hamp).append (hquoted.append (of_not_mem (by decide) (by decide)))⟩

end Guarded

theorem guarded_escapeChar (c : Char) : Guarded (escapeChar c) := by
  rcases escapeChar_cases c with rfl | rfl | rfl | rfl | hc
  · exact .of_entity (e := "&amp;") (by decide)
  · exact .of_entity (e := "&lt;") (by decide)
  · exact .of_entity (e := "&gt;") (by decide)
  · exact .of_entity (e := "&quot;") (by decide)
  · rw [escapeChar_of_isOrdinary hc]
    refine .of_not_mem ?_ ?_ <;> rw [List.mem_singleton] <;> rintro rfl <;> cases hc

/-- An escaped text is guarded, character by character. -/
theorem guarded_flatMap_escapeChar : ∀ cs : List Char, Guarded (cs.flatMap escapeChar)
  | [] => trivial
  | c :: cs => (guarded_escapeChar c).append (guarded_flatMap_escapeChar cs)

/-- No delimiter is left in an escaped text. -/
theorem isDelimiter_of_mem_flatMap_escapeChar {cs : List Char} :
    ∀ c ∈ cs.flatMap escapeChar, isDelimiter c = false := by
  intro c hc
  by_contra hdelim
  rw [Bool.not_eq_false, isDelimiter] at hdelim
  have hor : c = '<' ∨ c = '>' ∨ c = '\x22' := by simpa [or_assoc] using hdelim
  exact not_mem_flatMap_escapeChar hor cs hc

/-! ## Chunks -/

/-- The name that a chunk shows. -/
def Chunk.name? : Chunk → Option String
  | value _ name _ => some name
  | opening _ name => name
  | comment .. | closing _ | boundary _ => none

instance (s : String) : Decidable (IsOrdinary s) :=
  decidable_of_iff (s.toList.all isOrdinary = true) List.all_eq_true

/-- Segments without a name, with every `<` in a tag and every `&` in an entity. -/
structure Inert (segs : List Segment) : Prop where
  guarded : Guarded (spelled segs)
  nameless : ∀ n, Segment.name n ∉ segs

namespace Inert

theorem nil : Inert [] := ⟨trivial, fun _ => List.not_mem_nil⟩

/-- Inert segments are inert one behind the other. -/
theorem append {segs segs' : List Segment} (h : Inert segs) (h' : Inert segs') :
    Inert (segs ++ segs') where
  guarded := by
    rw [spelled_append]
    exact h.guarded.append h'.guarded
  nameless n hn := (List.mem_append.mp hn).elim (h.nameless n) (h'.nameless n)

theorem mark {s : String} (h : Guarded s.toList) : Inert [.mark s] where
  guarded := by simpa [Segment.chars] using h
  nameless n := by simp

/-- A mark of ordinary characters only. -/
theorem mark_of_isOrdinary {s : String} (h : IsOrdinary s) : Inert [.mark s] :=
  mark (.of_not_mem (fun hlt => Bool.false_ne_true (h _ hlt)) fun hamp =>
    Bool.false_ne_true (h _ hamp))

theorem text (s : String) : Inert [.text s] where
  guarded := by simpa [Segment.chars] using guarded_flatMap_escapeChar s.toList
  nameless n := by simp

/-- A tag with a text of the schema in it. -/
theorem quoting {tag : String} (htag : tag ∈ quotingTags) (s : String) :
    Inert [.mark tag, .text s, .mark "\">"] where
  guarded := Guarded.of_quotingTag htag (guarded_flatMap_escapeChar s.toList)
    isDelimiter_of_mem_flatMap_escapeChar
  nameless n := by simp

theorem intercalate {sep : List Segment} (hsep : Inert sep) : ∀ {ls : List (List Segment)},
    (∀ l ∈ ls, Inert l) → Inert (List.intercalate sep ls)
  | [], _ => nil
  | [l], h => by
    rw [List.intercalate_singleton]
    exact h l List.mem_cons_self
  | l :: l' :: ls, h => by
    obtain ⟨hl, hls⟩ := List.forall_mem_cons.mp h
    rw [List.intercalate_cons_cons]
    exact (hl.append hsep).append (hsep.intercalate hls)

end Inert

/-- The segments of a token are inert. -/
theorem inert_tokenSegments (t : Token) : Inert t.segments := by
  cases t with
  | word text => exact .text text
  | link lead label url tail =>
    have hclose : Inert [.mark "</a>"] := .mark (.of_plainTag (by decide))
    exact (Inert.text lead).append (.append (.quoting (by decide) url)
      (.append (.text label) (.append hclose (.text tail))))

/-- The segments of a line of a comment are inert. -/
theorem inert_lineSegments (run : List Token) : Inert (lineSegments run) := by
  refine (Inert.mark_of_isOrdinary (s := "; ") (by decide)).append ?_
  refine Inert.intercalate (.mark_of_isOrdinary (by decide)) fun l hl => ?_
  obtain ⟨t, -, rfl⟩ := List.mem_map.mp hl
  exact inert_tokenSegments t

theorem inert_indent (depth : Nat) : Inert [.mark (indent depth)] :=
  .mark_of_isOrdinary (isOrdinary_indent depth)

/-- The segments of a default are inert. -/
theorem inert_valueSegments (text : String) : Inert (valueSegments text) := by
  unfold valueSegments
  split
  · exact .nil
  · exact (Inert.mark_of_isOrdinary (s := " ") (by decide)).append (.text _)

/-- A chunk shows at most one name, with a blank behind it, and nothing else of the schema as it
is. -/
inductive Shape (segs : List Segment) : Option String → Prop
  | nameless : Inert segs → Shape segs none
  | named {n : String} {before after : List Segment} {rest : List Char} :
      segs = before ++ .name n :: after → Inert before → Inert after →
      spelled after = ' ' :: rest → Shape segs (some n)

/-- Of all that a chunk shows, only its name is written as it is. -/
theorem Chunk.shape (width : Nat) (c : Chunk) : Shape (c.segments width) c.name? := by
  cases c with
  | comment depth path tokens =>
    have hsep : Inert [.mark "\n", .mark (indent depth)] :=
      (Inert.mark_of_isOrdinary (s := "\n") (by decide)).append (inert_indent depth)
    have hlines (room : Nat) : ∀ l ∈ (runs room tokens).map lineSegments, Inert l := by
      intro l hl
      obtain ⟨run, -, rfl⟩ := List.mem_map.mp hl
      exact inert_lineSegments run
    have hend : Inert [.mark "</span>", .mark "\n"] :=
      (Inert.mark (s := "</span>") (.of_plainTag (by decide))).append
        (.mark_of_isOrdinary (by decide))
    exact .nameless ((((inert_indent depth).append (.quoting (by decide) path)).append
      (hsep.intercalate (hlines _))).append hend)
  | value depth name text =>
    have hafter : Inert ([.mark " ="] ++ (valueSegments text ++ [.mark "\n"])) :=
      (Inert.mark_of_isOrdinary (by decide)).append
        ((inert_valueSegments text).append (.mark_of_isOrdinary (by decide)))
    exact .named (by simp [segments]) (inert_indent depth) hafter rfl
  | opening depth name =>
    cases name with
    | none => exact .nameless ((inert_indent depth).append (.mark_of_isOrdinary (by decide)))
    | some name => exact .named rfl (inert_indent depth) (.mark_of_isOrdinary (by decide)) rfl
  | closing depth =>
    exact .nameless ((inert_indent depth).append (.mark_of_isOrdinary (by decide)))
  | boundary entering =>
    have hline {t : String} (ht : t ∈ plainTags) : Inert [.mark (t ++ "\n")] := by
      refine .mark ?_
      rw [String.toList_append]
      exact (Guarded.of_plainTag ht).append (.of_not_mem (by decide) (by decide))
    cases entering
    · exact .nameless (hline (t := "</div>") (by decide))
    · exact .nameless (hline (t := "<div class=expert>") (by decide))

theorem Chunk.name_mem_segments_iff (width : Nat) (c : Chunk) (n : String) :
    Segment.name n ∈ c.segments width ↔ c.name? = some n := by
  have hshape := c.shape width
  revert hshape
  generalize c.name? = name
  rintro (hinert | ⟨hsegs, hbefore, hafter, -⟩)
  · simp [hinert.nameless]
  · simp [hsegs, hbefore.nameless, hafter.nameless, eq_comm]

/-- A chunk is guarded if its name is. -/
theorem Chunk.guarded (width : Nat) (c : Chunk)
    (h : ∀ n, c.name? = some n → Guarded n.toList) : Guarded (spelled (c.segments width)) := by
  have hshape := c.shape width
  revert hshape h
  generalize c.name? = name
  rintro h (hinert | ⟨hsegs, hbefore, hafter, -⟩)
  · exact hinert.guarded
  · rw [hsegs, spelled_append, spelled_cons]
    exact hbefore.guarded.append ((h _ rfl).append hafter.guarded)

/-! ## Pages -/

/-- The segments of an outline. -/
def pageSegments (width : Nat) (chunks : List Chunk) : List Segment :=
  chunks.flatMap (Chunk.segments width)

/-- The segments of an outline spell the page. -/
theorem spelled_pageSegments (width : Nat) : ∀ chunks : List Chunk,
    spelled (pageSegments width chunks) = (renderChunks .html width chunks).toList
  | [] => rfl
  | c :: cs => by
    have ih := spelled_pageSegments width cs
    rw [renderChunks, String.toList_append, ← ih, ← c.spelled_segments, ← spelled_append]
    rfl

/-- The names that an outline shows. -/
def namesOf (chunks : List Chunk) : List String :=
  chunks.filterMap Chunk.name?

theorem forall_mem_namesOf_cons {P : String → Prop} {c : Chunk} {cs : List Chunk} :
    (∀ n ∈ namesOf (c :: cs), P n) ↔
      (∀ n, c.name? = some n → P n) ∧ ∀ n ∈ namesOf cs, P n := by
  unfold namesOf
  rw [List.filterMap_cons]
  cases c.name? <;> simp

/-- The names among the segments of a page are those that its chunks show. -/
theorem name_mem_pageSegments_iff {width : Nat} {chunks : List Chunk} {n : String} :
    Segment.name n ∈ pageSegments width chunks ↔ n ∈ namesOf chunks := by
  simp only [pageSegments, namesOf, List.mem_flatMap, List.mem_filterMap,
    Chunk.name_mem_segments_iff]

/-- A page is guarded if the names on it are. -/
theorem guarded_pageSegments (width : Nat) : ∀ {chunks : List Chunk},
    (∀ n ∈ namesOf chunks, Guarded n.toList) → Guarded (spelled (pageSegments width chunks))
  | [], _ => trivial
  | c :: cs, h => by
    obtain ⟨hc, hcs⟩ := forall_mem_namesOf_cons.mp h
    rw [pageSegments, List.flatMap_cons, spelled_append]
    exact (c.guarded width hc).append (guarded_pageSegments width hcs)

/-- A name without `<` is guarded if a page with it is. -/
theorem guarded_of_mem_namesOf {width : Nat} {chunks : List Chunk}
    (h : Guarded (spelled (pageSegments width chunks))) {n : String}
    (hn : n ∈ namesOf chunks) (hlt : '<' ∉ n.toList) : Guarded n.toList := by
  obtain ⟨c, hc, hname⟩ := List.mem_filterMap.mp hn
  obtain ⟨before, after, rfl⟩ := List.append_of_mem hc
  have hshape := c.shape width
  rw [hname] at hshape
  obtain - | ⟨hsegs, -, -, hblank⟩ := hshape
  simp only [pageSegments, List.flatMap_append, List.flatMap_cons, spelled_append, hsegs,
    spelled_cons, hblank, Segment.chars, List.append_assoc, List.cons_append] at h
  exact .of_blank hlt h.of_append.of_append

/-- A page on which every `<` begins a tag of the style and every `&` an entity, and no character
that delimits an element or an attribute is from the schema. -/
structure InjectsNothing (segs : List Segment) : Prop where
  guarded : Guarded (spelled segs)
  sources : ∀ seg ∈ segs, seg.isSource = true → ∀ c ∈ seg.chars, isDelimiter c = false

/-- A name that could have been escaped already. -/
def IsHarmless (n : String) : Prop :=
  (∀ c ∈ n.toList, isDelimiter c = false) ∧ Guarded n.toList

/-- A page injects nothing exactly if no name on it does. -/
theorem injectsNothing_iff {width : Nat} {chunks : List Chunk} :
    InjectsNothing (pageSegments width chunks) ↔ ∀ n ∈ namesOf chunks, IsHarmless n := by
  constructor
  · rintro ⟨hguarded, hsources⟩ n hn
    have hdelim := hsources _ (name_mem_pageSegments_iff.mpr hn) rfl
    refine ⟨hdelim, guarded_of_mem_namesOf hguarded hn fun hlt => ?_⟩
    exact Bool.false_ne_true (hdelim _ hlt).symm
  · refine fun h => ⟨guarded_pageSegments width fun n hn => (h n hn).2, fun seg hseg hsource => ?_⟩
    cases seg with
    | mark s => cases hsource
    | text s => exact isDelimiter_of_mem_flatMap_escapeChar
    | name n => exact (h n (name_mem_pageSegments_iff.mp hseg)).1

end Docs

namespace Setting

open Docs

/-! ## Settings shown -/

/-- `n` is the name of a setting that documentation shows where it shows `s`. -/
def Names (s : Setting) (n : String) : Prop :=
  ∃ x, s.Displays x ∧ x.info.name = n

/-- A leaf names itself only. -/
theorem names_leaf_iff {info : Info} {value : Value} {n : String} :
    Names (leaf info value) n ↔ info.name = n := by
  constructor
  · rintro ⟨x, ⟨⟩, rfl⟩
    rfl
  · rintro rfl
    exact ⟨_, .self, rfl⟩

/-- A composite names itself, and a block also what the documented settings inside it name. -/
theorem names_group_iff {info : Info} {cs : List Setting} {n : String} :
    Names (group info cs) n ↔ info.name = n ∨
      ((info.kind = .struct ∨ info.kind = .array) ∧
        ∃ c ∈ cs, c.isDocumented = true ∧ c.Names n) := by
  constructor
  · rintro ⟨x, _ | ⟨hkind, hc, hdoc, hx⟩, rfl⟩
    · exact .inl rfl
    · exact .inr ⟨hkind, _, hc, hdoc, x, hx, rfl⟩
  · rintro (rfl | ⟨hkind, c, hc, hdoc, x, hx, rfl⟩)
    · exact ⟨_, .self, rfl⟩
    · exact ⟨x, .inside hkind hc hdoc hx, rfl⟩

theorem namesOf_append (chunks chunks' : List Chunk) :
    namesOf (chunks ++ chunks') = namesOf chunks ++ namesOf chunks' :=
  List.filterMap_append

theorem namesOf_commentChunks (depth : Nat) (path : String) (s : Setting) :
    namesOf (commentChunks depth path s) = [] := by
  unfold commentChunks
  split <;> rfl

mutual

/-- The chunks of a setting show the names of the settings displayed with it. -/
theorem mem_namesOf_bodyChunks_iff {n : String} : ∀ {s : Setting} {depth : Nat} {path : String}
    {body : List Chunk}, s.isComment = false → bodyChunks depth path s = .ok body →
    (n ∈ namesOf body ↔ s.Names n)
  | leaf info value, depth, path, body, hcom, h => by
    rw [names_leaf_iff]
    rw [bodyChunks] at h
    split at h
    iterate 3 cases h
    · next hkind => simp [isComment, hkind] at hcom
    · obtain rfl := Except.ok.inj h
      simp [namesOf, Chunk.name?, eq_comm]
  | group info cs, depth, path, body, hcom, h => by
    rw [names_group_iff]
    have inside {depth : Nat} {inner : List Chunk}
        (hinner : listChunks depth path false cs = .ok inner) :
        n ∈ namesOf inner ↔ ∃ c ∈ cs, c.isDocumented = true ∧ c.Names n :=
      mem_namesOf_listChunks_iff hinner
    have block (inner : List Chunk) {chunks : List Chunk}
        (h : namesOf chunks = info.name :: namesOf inner ++ []) :
        n ∈ namesOf chunks ↔ info.name = n ∨ n ∈ namesOf inner := by
      rw [h, List.append_nil, List.mem_cons, @eq_comm _ n]
    rw [bodyChunks] at h
    split at h
    · next hkind =>
      split at h
      · cases h
      · next inner hinner =>
        obtain rfl := Except.ok.inj h
        rw [block inner (namesOf_append _ _), ← inside hinner]
        simp [hkind]
    · next hkind =>
      split at h
      · cases h
      · next inner hinner =>
        obtain rfl := Except.ok.inj h
        rw [block inner (namesOf_append _ _), ← inside hinner]
        simp [hkind]
    · next hkind =>
      split at h
      · cases h
      · obtain rfl := Except.ok.inj h
        have hline {text : String} : namesOf [.value depth info.name text] = [info.name] := rfl
        rw [hline, List.mem_singleton, @eq_comm _ n]
        simp [hkind]
    · next hkind => simp [isComment, hkind] at hcom
    · cases h

/-- The chunks of a list show the names of the settings displayed with its documented
settings. -/
theorem mem_namesOf_listChunks_iff {n : String} : ∀ {cs : List Setting} {depth : Nat}
    {path : String} {expert : Bool} {chunks : List Chunk},
    listChunks depth path expert cs = .ok chunks →
    (n ∈ namesOf chunks ↔ ∃ c ∈ cs, c.isDocumented = true ∧ c.Names n)
  | [], depth, path, expert, chunks, h => by
    rw [listChunks] at h
    obtain rfl := Except.ok.inj h
    cases expert <;> simp [namesOf, Chunk.name?]
  | c :: cs, depth, path, expert, chunks, h => by
    rw [List.exists_mem_cons_iff]
    rcases listChunks_cons_ok h with ⟨hdoc, hrest⟩ | ⟨body, rest, hdoc, hbody, hrest, rfl⟩
    · rw [mem_namesOf_listChunks_iff hrest]
      simp [hdoc]
    · have hcom : c.isComment = false := (isComment_of_isDocumented hdoc).1
      have hboundary : namesOf (if c.info.expert = expert then []
          else [Chunk.boundary c.info.expert]) = [] := by
        split <;> rfl
      rw [namesOf_append, namesOf_append, namesOf_append, hboundary, namesOf_commentChunks,
        List.nil_append, List.nil_append, List.mem_append, mem_namesOf_bodyChunks_iff hcom hbody,
        mem_namesOf_listChunks_iff hrest]
      simp [hdoc]

end

/-- The segments of the documentation of a root. -/
def segments (width : Nat) (root : Setting) : Except Fault (List Segment) :=
  root.outline.map (pageSegments width)

/-- What the HTML documentation of a root is made of. The segments spell it, with the names of
the settings shown as they are. In the escaped texts no character delimits an element or an
attribute, and every `&` begins an entity ; the whole page injects nothing exactly if every name
on it is harmless. -/
structure MadeOf (root : Setting) (segs : List Segment) (html : String) : Prop where
  spelled : html.toList = spelled segs
  names : ∀ n, Segment.name n ∈ segs ↔ ∃ x, IsShownIn root x ∧ x.info.name = n
  texts : ∀ s, Segment.text s ∈ segs → IsHarmless (escape s)
  injectsNothing_iff : InjectsNothing segs ↔ ∀ x, IsShownIn root x → IsHarmless x.info.name

/-- The names that the outline of a root shows are those of the settings shown. -/
theorem mem_namesOf_outline_iff {root : Setting} {chunks : List Chunk}
    (h : root.outline = .ok chunks) {n : String} :
    n ∈ namesOf chunks ↔ ∃ x, IsShownIn root x ∧ x.info.name = n := by
  rw [mem_namesOf_listChunks_iff (listChunks_of_outline h)]
  constructor
  · rintro ⟨c, hc, hdoc, x, hx, hname⟩
    exact ⟨x, ⟨c, hc, hdoc, hx⟩, hname⟩
  · rintro ⟨x, ⟨c, hc, hdoc, hx⟩, hname⟩
    exact ⟨c, hc, hdoc, x, hx, hname⟩

/-- Every page of HTML is made of segments. Names are the only texts of the schema in it that are
not escaped, and whether they inject anything settles whether the page does. -/
theorem exists_madeOf {root : Setting} {width : Nat} {html : String}
    (h : renderHtml width root = .ok html) :
    ∃ segs, root.segments width = .ok segs ∧ MadeOf root segs html := by
  unfold renderHtml render at h
  unfold segments
  cases houtline : root.outline with
  | error e =>
    rw [houtline] at h
    cases h
  | ok chunks =>
    rw [houtline] at h
    obtain rfl := Except.ok.inj h
    refine ⟨pageSegments width chunks, rfl, ?_, fun n => ?_, fun s _ => ?_, ?_⟩
    · exact (spelled_pageSegments width chunks).symm
    · rw [name_mem_pageSegments_iff, mem_namesOf_outline_iff houtline]
    · rw [IsHarmless, toList_escape]
      exact ⟨isDelimiter_of_mem_flatMap_escapeChar, guarded_flatMap_escapeChar _⟩
    · rw [Docs.injectsNothing_iff]
      simp only [mem_namesOf_outline_iff houtline, forall_exists_index, and_imp]
      constructor
      · exact fun hall x hx => hall _ x hx rfl
      · rintro hall _ x hx rfl
        exact hall x hx

/-- A name with an entity, above which a link and a default are to be escaped. -/
def answered : Setting :=
  .makeGroup "Prefs" .struct [
    .make "Q&amp;A" .string (.text "\x22<b>\x22") "see [<b> & co](?a=\x22&b) now"] ""

/-- A name that has been escaped injects nothing, and neither do the link and the default. -/
theorem injectsNothing_answered :
    ∃ html segs, renderHtml 80 answered = .ok html ∧ answered.segments 80 = .ok segs ∧
      MadeOf answered segs html ∧ InjectsNothing segs := by
  have hrender : ∃ html, renderHtml 80 answered = .ok html := ⟨_, rfl⟩
  obtain ⟨html, hhtml⟩ := hrender
  obtain ⟨segs, hsegs, hmade⟩ := exists_madeOf hhtml
  refine ⟨html, segs, hhtml, hsegs, hmade, hmade.injectsNothing_iff.mpr ?_⟩
  rintro x ⟨c, hc, -, hx⟩
  obtain rfl := List.mem_singleton.mp hc
  cases hx with
  | self =>
    have hentity : Guarded "&amp;".toList := .of_entity (by decide)
    have hletter (c : Char) (hlt : '<' ≠ c) (hamp : '&' ≠ c) : Guarded [c] :=
      .of_not_mem (by simpa using hlt) (by simpa using hamp)
    have hdelim : "Q&amp;A".toList.all (fun c => !isDelimiter c) = true := rfl
    refine ⟨fun c hc => by simpa using List.all_eq_true.mp hdelim c hc, ?_⟩
    exact (hletter 'Q' (by decide) (by decide)).append
      (hentity.append (hletter 'A' (by decide) (by decide)))

/-- A setting with the name of a tag. -/
def tagged : Setting :=
  .makeGroup "Prefs" .struct [.make "<b>" .bool (.bool true) ""] ""

/-- The name `<b>` is on the page as it is, and no tag of the documentation. -/
theorem not_guarded_tagged :
    renderHtml 80 tagged = .ok "<b> = true\n" ∧ ¬Guarded "<b> = true\n".toList ∧
      ∃ segs, tagged.segments 80 = .ok segs ∧ ¬InjectsNothing segs := by
  have hrender : renderHtml 80 tagged = .ok "<b> = true\n" := by decide
  have hguarded : ¬Guarded "<b> = true\n".toList := by
    rintro ⟨htag, -⟩
    obtain ⟨t, ht, hprefix⟩ := (htag rfl).exists_tag
    revert t
    decide
  refine ⟨hrender, hguarded, _, rfl, fun h => hguarded ?_⟩
  exact h.guarded

end Setting
end SettingsCompiler
