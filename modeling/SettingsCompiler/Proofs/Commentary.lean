import SettingsCompiler.Proofs.Linking
import SettingsCompiler.Proofs.Nesting

/-!
# Comments of a page

Each setting that documentation shows has its comment in front of it, with the dotted path of the
settings it is inside of (`filter_listChunks`). A comment is written as lines that carry runs of
its tokens, one after another (`exists_runs`) : no token is lost or moved, and none is on two lines,
since no token has a line feed (`isBlank_of_mem_spelled`).

In HTML an element stands around the lines, and links are elements inside them. Readers of HTML
differ in what they make of a text without tags and of the tags, but all go on behind both
(`MarkupReader`), so each reads a comment part by part (`yields_comment`). One that takes out the
element around a comment finds the lines that its tokens spell (`saysEverything`).
-/

namespace SettingsCompiler

namespace Docs

open Text

/-- Whether a chunk is the comment of a setting. -/
def Chunk.isComment : Chunk → Bool
  | comment .. => true
  | value .. | opening .. | closing _ | boundary _ => false

/-! ## Tokens on one line -/

theorem mem_joinWords {c : Char} : ∀ {ws : List (List Char)},
    c ∈ joinWords ws → c = ' ' ∨ ∃ w ∈ ws, c ∈ w
  | [w], h => .inr ⟨w, List.mem_cons_self, h⟩
  | w :: v :: ws, h => by
    rw [joinWords, List.mem_append, List.mem_cons] at h
    rcases h with h | h | h
    · exact .inr ⟨w, List.mem_cons_self, h⟩
    · exact .inl h
    · exact (mem_joinWords h).imp_right fun ⟨u, hu, hc⟩ => ⟨u, List.mem_cons_of_mem w hu, hc⟩

theorem mem_joinWords_of_mem {c : Char} {w : List Char} (hc : c ∈ w) :
    ∀ {ws : List (List Char)}, w ∈ ws → c ∈ joinWords ws
  | [v], h => List.mem_singleton.mp h ▸ hc
  | v :: u :: ws, h => by
    rw [joinWords, List.mem_append, List.mem_cons]
    rcases List.mem_cons.mp h with rfl | h
    · exact .inl hc
    · exact .inr (.inr (mem_joinWords_of_mem hc h))

/-- A token has no blanks but spaces. -/
theorem isBlank_of_mem_spelled {text : String} {t : Token} (ht : t ∈ tokenize text) {c : Char}
    (hc : c ∈ t.spelled) : c = ' ' ∨ isBlank c = false := by
  have hscans : Scans (words text.toList) (tokenize text) := (scans_tokensFrom _).1
  have hmem := mem_joinWords_of_mem hc (List.mem_map_of_mem ht)
  rw [hscans.joinWords_spelled] at hmem
  exact (mem_joinWords hmem).imp_right fun ⟨w, hw, hc⟩ => (mem_words hw).2 c hc

/-- A token without a line feed. -/
def Token.IsOneLine (t : Token) : Prop :=
  '\n' ∉ t.spelled

/-- No token of a text has a line feed, since words have none and links put spaces between
them. -/
theorem isOneLine_of_mem_tokenize {text : String} : ∀ t ∈ tokenize text, t.IsOneLine := by
  intro t ht hc
  rcases isBlank_of_mem_spelled ht hc with h | h <;> revert h <;> decide

theorem Token.IsOneLine.plain {t : Token} (h : t.IsOneLine) : '\n' ∉ t.plain.toList := by
  cases t <;> simp_all [IsOneLine, spelled, Token.plain]

theorem newline_mem_escape_iff {s : String} : '\n' ∈ (escape s).toList ↔ '\n' ∈ s.toList := by
  have hchar (c : Char) : '\n' ∈ escapeChar c ↔ c = '\n' := by
    rcases escapeChar_cases c with rfl | rfl | rfl | rfl | hc
    iterate 4 decide
    rw [escapeChar_of_isOrdinary hc, List.mem_singleton, eq_comm]
  rw [toList_escape, List.mem_flatMap]
  simp [hchar]

/-- The HTML of a token without a line feed has none either. -/
theorem Token.IsOneLine.html {t : Token} (h : t.IsOneLine) : '\n' ∉ t.html.text.toList := by
  cases t <;> simp_all [IsOneLine, spelled, Token.html, newline_mem_escape_iff, -toList_escape]

/-! ## Lines of tokens -/

/-- A line of a comment that carries a run of tokens. -/
def commentLine (depth : Nat) (spelling : Token → String) (run : List Token) : String :=
  indent depth ++ "; " ++ joinWith " " (run.map spelling)

/-- A line of a comment without its indentation and its marker. -/
def unmarked (depth : Nat) (line : String) : String :=
  String.ofList (line.toList.drop ((indent depth).length + markerWidth))

/-- Behind indentation and marker a line has the tokens of its run. -/
theorem unmarked_commentLine (depth : Nat) (spelling : Token → String) (run : List Token) :
    unmarked depth (commentLine depth spelling run) = joinWith " " (run.map spelling) := by
  have hmark : "; ".toList.length = markerWidth := rfl
  rw [unmarked, commentLine, String.toList_append, String.toList_append, ← String.length_toList,
    ← hmark, ← List.length_append, List.drop_left, String.ofList_toList]

theorem newline_not_mem_indent (depth : Nat) : '\n' ∉ (indent depth).toList := by
  induction depth with
  | zero => simp [indent, replicate]
  | succ depth ih => simpa [indent, replicate] using ih

theorem newline_not_mem_commentLine {spelling : Token → String} {run : List Token}
    (h : ∀ t ∈ run, '\n' ∉ (spelling t).toList) (depth : Nat) :
    '\n' ∉ (commentLine depth spelling run).toList := by
  rw [commentLine, String.toList_append, String.toList_append]
  simp only [List.mem_append, not_or]
  refine ⟨⟨newline_not_mem_indent depth, by decide⟩, fun hc => ?_⟩
  rcases mem_joinWith hc with hsep | ⟨s, hs, hc⟩
  · revert hsep
    decide
  · obtain ⟨t, ht, rfl⟩ := List.mem_map.mp hs
    exact h t ht hc

/-- The lines of a text carry the tokens : without indentation and marker they are the spelled
tokens with single spaces between, and each of them has a run of whole tokens. -/
structure SpellsOut (depth : Nat) (spelling : Token → String) (tokens : List Token)
    (text : String) : Prop where
  joined : joinWith " " ((lines text).map (unmarked depth)) = joinWith " " (tokens.map spelling)
  whole : ∃ runs : List (List Token), runs.flatten = tokens ∧ (∀ run ∈ runs, run ≠ []) ∧
    lines text = runs.map (commentLine depth spelling)

/-- The lines of a comment are read back as they were written. -/
theorem lines_unlines_commentLine {spelling : Token → String} {tokens : List Token}
    {runs : List (List Token)} (hflat : runs.flatten = tokens)
    (h : ∀ t ∈ tokens, '\n' ∉ (spelling t).toList) (depth : Nat) :
    lines (unlines (runs.map (commentLine depth spelling))) =
      runs.map (commentLine depth spelling) := by
  refine lines_unlines fun line hline => ?_
  obtain ⟨run, hrun, rfl⟩ := List.mem_map.mp hline
  exact newline_not_mem_commentLine
    (fun t ht => h t (hflat ▸ List.mem_flatten_of_mem hrun ht)) depth

/-- Lines that carry the runs of the tokens spell them out. -/
theorem SpellsOut.of_runs {depth : Nat} {spelling : Token → String} {tokens : List Token}
    {runs : List (List Token)} (hflat : runs.flatten = tokens) (hne : ∀ run ∈ runs, run ≠ [])
    (h : ∀ t ∈ tokens, '\n' ∉ (spelling t).toList) :
    SpellsOut depth spelling tokens (unlines (runs.map (commentLine depth spelling))) := by
  have hlines := lines_unlines_commentLine hflat h depth
  refine ⟨?_, runs, hflat, hne, hlines⟩
  have hgroups : ∀ g ∈ runs.map (List.map spelling), g ≠ [] := by
    intro g hg
    obtain ⟨run, hrun, rfl⟩ := List.mem_map.mp hg
    simpa using hne run hrun
  calc joinWith " " ((lines (unlines (runs.map (commentLine depth spelling)))).map (unmarked depth))
      = joinWith " " (runs.map fun run => joinWith " " (run.map spelling)) := by
        rw [hlines, List.map_map]
        exact congrArg _ (List.map_congr_left fun run _ => unmarked_commentLine depth spelling run)
    _ = joinWith " " ((runs.map (List.map spelling)).map (joinWith " ")) := by
        rw [List.map_map]
        rfl
    _ = joinWith " " (tokens.map spelling) := by
        rw [joinWith_flatten " " hgroups, ← List.map_flatten, hflat]

/-- The columns left for the text of a comment. -/
def roomFor (depth width : Nat) : Nat :=
  width - ((indent depth).length + markerWidth)

/-- Filling lines cuts the tokens as it cuts their pieces. -/
theorem exists_runs (style : Style) (room : Nat) (tokens : List Token) :
    ∃ runs : List (List Token), runs.flatten = tokens ∧ (∀ run ∈ runs, run ≠ []) ∧
      fill room (tokens.map style.piece) = runs.map (List.map style.piece) := by
  have hflat := flatten_fill room (tokens.map style.piece)
  have hmap := map_splitLengths hflat
  refine ⟨_, List.flatten_splitLengths _ _ ?_, fun run hrun => ?_, hmap.symm⟩
  · rw [← List.length_flatten, hflat, List.length_map]
  · have hne := ne_nil_of_mem_fill room (tokens.map style.piece)
      (hmap ▸ List.mem_map_of_mem hrun)
    simpa using hne

/-- The lines of a comment are those of its runs. -/
theorem wrap_map_piece {style : Style} {room : Nat} {tokens : List Token}
    {runs : List (List Token)}
    (h : fill room (tokens.map style.piece) = runs.map (List.map style.piece)) :
    wrap room (tokens.map style.piece) =
      runs.map fun run => joinWith " " (run.map fun t => (style.piece t).text) := by
  rw [wrap, h, List.map_map]
  refine List.map_congr_left fun run _ => ?_
  rw [Function.comp_apply, spell, List.map_map]
  rfl

/-- In plain text a comment is the lines of its runs. -/
theorem render_plain_comment {depth width : Nat} {path : String} {tokens : List Token}
    {runs : List (List Token)} (h : fill (roomFor depth width) (tokens.map Style.plain.piece) =
      runs.map (List.map Style.plain.piece)) :
    (Chunk.comment depth path tokens).render .plain width =
      unlines (runs.map (commentLine depth Token.plain)) := by
  have hrender : (Chunk.comment depth path tokens).render .plain width =
      unlines ((wrap (roomFor depth width) (tokens.map Style.plain.piece)).map
        fun line => indent depth ++ "; " ++ line) := rfl
  rw [hrender, wrap_map_piece h, List.map_map]
  rfl

/-! ## Readers of HTML -/

/-- The text is read as `out`, whatever comes behind it. -/
def Yields {β : Type} (read : List Char → List β) (text : List Char) (out : List β) : Prop :=
  ∀ rest, read (text ++ rest) = out ++ read rest

namespace Yields

variable {β : Type} {read : List Char → List β}

/-- Texts are read one behind the other. -/
theorem append {u v : List Char} {a b : List β} (hu : Yields read u a) (hv : Yields read v b) :
    Yields read (u ++ v) (a ++ b) := by
  intro rest
  rw [List.append_assoc, hu, hv, List.append_assoc]

theorem append_string {s t : String} {a b : List β} (hs : Yields read s.toList a)
    (ht : Yields read t.toList b) : Yields read (s ++ t).toList (a ++ b) := by
  rw [String.toList_append]
  exact hs.append ht

/-- Texts are read between separators that are read the same way each time. -/
theorem joinWith {sep : String} {o : List β} (hsep : Yields read sep.toList o) {α : Type}
    {spelling : α → String} {out : α → List β} : ∀ {as : List α},
    (∀ a ∈ as, Yields read (spelling a).toList (out a)) →
    Yields read (Text.joinWith sep (as.map spelling)).toList (List.intercalate o (as.map out))
  | [], _ => fun _ => rfl
  | [a], h => by
    rw [List.map_singleton, List.map_singleton, List.intercalate_singleton]
    exact h a List.mem_cons_self
  | a :: b :: as, h => by
    obtain ⟨ha, has⟩ := List.forall_mem_cons.mp h
    have ih := hsep.joinWith has
    simp only [List.map_cons] at ih ⊢
    rw [List.intercalate_cons_cons, Text.joinWith]
    exact (ha.append_string hsep).append_string ih

end Yields

/-- A way to read HTML that goes on behind every text without tags and behind every tag. -/
structure MarkupReader (β : Type) where
  read : List Char → List β
  /-- What is read of a text without tags. -/
  ofText : List Char → List β
  /-- What is read of a tag. -/
  ofTag : String → List β
  /-- What is read of a tag with a text of the schema in it. -/
  ofQuoting : String → String → List β
  yields_text : ∀ {u : List Char}, '<' ∉ u → Yields read u (ofText u)
  yields_tag : ∀ {tag : String}, tag ∈ plainTags → Yields read tag.toList (ofTag tag)
  yields_quoting : ∀ {tag : String}, tag ∈ quotingTags → ∀ s : String,
    Yields read (tag ++ escape s ++ "\">").toList (ofQuoting tag s)

namespace MarkupReader

variable {β : Type} (r : MarkupReader β)

/-- What is read of a token. -/
def ofToken : Token → List β
  | .word text => r.ofText (escape text).toList
  | .link lead label url tail =>
    r.ofText (escape lead).toList ++ r.ofQuoting "<a href=\"" url ++
      r.ofText (escape label).toList ++ r.ofTag "</a>" ++ r.ofText (escape tail).toList

/-- What is read of a line of tokens behind its indentation. -/
def ofLine (run : List Token) : List β :=
  r.ofText "; ".toList ++ List.intercalate (r.ofText " ".toList) (run.map r.ofToken)

/-- An escaped text has no tags, so it is read as a text. -/
theorem yields_escape (s : String) :
    Yields r.read (escape s).toList (r.ofText (escape s).toList) :=
  r.yields_text (not_mem_escape (.inl rfl) s)

/-- A word is read as a text, and a link as its texts and tags. -/
theorem yields_token (t : Token) : Yields r.read t.html.text.toList (r.ofToken t) := by
  cases t with
  | word text => exact r.yields_escape text
  | link lead label url tail =>
    have hopen : "<a href=\"" ∈ quotingTags := by decide
    have hclose : "</a>" ∈ plainTags := by decide
    have hlink := (r.yields_escape lead).append_string (r.yields_quoting hopen url)
    have hall := ((hlink.append_string (r.yields_escape label)).append_string
      (r.yields_tag hclose)).append_string (r.yields_escape tail)
    simpa only [Token.html, ofToken, String.append_assoc, List.append_assoc] using hall

/-- A comment is read part by part : indentation, opening tag, lines, closing tag. -/
theorem yields_comment {depth width : Nat} (path : String) {tokens : List Token}
    {runs : List (List Token)} (h : fill (roomFor depth width) (tokens.map Style.html.piece) =
      runs.map (List.map Style.html.piece)) :
    Yields r.read ((Chunk.comment depth path tokens).render .html width).toList
      (r.ofText (indent depth).toList ++ r.ofQuoting "<span class=cm id=\"" path ++
        List.intercalate (r.ofText ("\n" ++ indent depth).toList) (runs.map r.ofLine) ++
        r.ofTag "</span>" ++ r.ofText "\n".toList) := by
  let line (run : List Token) : String := "; " ++ joinWith " " (run.map fun t => t.html.text)
  have hrender : (Chunk.comment depth path tokens).render .html width =
      indent depth ++ ("<span class=cm id=\"" ++ escape path ++ "\">") ++
        joinWith ("\n" ++ indent depth) (runs.map line) ++ "</span>" ++ "\n" := by
    have hlines : (wrap (roomFor depth width) (tokens.map Style.html.piece)).map ("; " ++ ·) =
        runs.map line := by
      rw [wrap_map_piece h, List.map_map]
      rfl
    have hend : "</span>\n" = "</span>" ++ "\n" := by decide
    rw [← hlines, Chunk.render, Style.html, hend]
    simp only [String.append_assoc]
    rfl
  have hindent := lt_not_mem_indent depth
  have hbreak : Yields r.read ("\n" ++ indent depth).toList
      (r.ofText ("\n" ++ indent depth).toList) := r.yields_text (by simpa using hindent)
  have hline (run : List Token) : Yields r.read (line run).toList (r.ofLine run) :=
    (r.yields_text (by decide)).append_string
      ((r.yields_text (by decide)).joinWith fun t _ => r.yields_token t)
  have hlines := hbreak.joinWith fun run (_ : run ∈ runs) => hline run
  rw [hrender]
  exact ((((r.yields_text hindent).append_string (r.yields_quoting (by decide) path)).append_string
    hlines).append_string (r.yields_tag (by decide))).append_string (r.yields_text (by decide))

/-- A reader that keeps texts and takes the element around a comment out finds its lines. -/
theorem read_comment (r : MarkupReader Char) {shown : Token → String} (hnil : r.read [] = [])
    (htext : ∀ u, r.ofText u = u) (hopen : ∀ s, r.ofQuoting "<span class=cm id=\"" s = [])
    (hclose : r.ofTag "</span>" = []) (htoken : ∀ t, r.ofToken t = (shown t).toList)
    {depth width : Nat} (path : String) {tokens : List Token} {runs : List (List Token)}
    (hne : runs ≠ []) (h : fill (roomFor depth width) (tokens.map Style.html.piece) =
      runs.map (List.map Style.html.piece)) :
    String.ofList (r.read ((Chunk.comment depth path tokens).render .html width).toList) =
      unlines (runs.map (commentLine depth shown)) := by
  let line (run : List Token) : String := "; " ++ joinWith " " (run.map shown)
  have hline : runs.map r.ofLine = (runs.map line).map String.toList := by
    rw [List.map_map]
    refine List.map_congr_left fun run _ => ?_
    simp only [ofLine, htext, Function.comp_apply, line, String.toList_append, toList_joinWith,
      List.map_map]
    congr 2
    exact List.map_congr_left fun t _ => htoken t
  have hlines : unlines (runs.map (commentLine depth shown)) =
      indent depth ++ joinWith ("\n" ++ indent depth) (runs.map line) ++ "\n" := by
    rw [joinWith_indent _ (by simpa using hne), List.map_map]
    refine congrArg unlines (List.map_congr_left fun run _ => ?_)
    rw [commentLine, Function.comp_apply, String.append_assoc]
  have hread := r.yields_comment path h []
  rw [List.append_nil, hnil, hline, hopen, hclose, htext, htext, htext, ← toList_joinWith] at hread
  rw [hread, hlines]
  apply String.toList_injective
  simp

end MarkupReader

/-! ### Without the element around a comment -/

end Docs

namespace Setting

open Docs

/-! ## Comments in an outline -/

/-- The dotted path of the innermost of nested settings. -/
def pathTo : List Setting → String
  | [] => ""
  | a :: around => childPath (pathTo around) a.info.name

/-- The dotted path of a setting that is shown. -/
def Placed.path (p : Placed) : String :=
  pathTo (p.setting :: p.around)

/-- The comment of a setting that is shown, at its depth and with its path. -/
def Placed.comment (p : Placed) : List Chunk :=
  commentChunks (levelsIn p.around) p.path p.setting

theorem filter_isComment_commentChunks (depth : Nat) (path : String) (s : Setting) :
    (commentChunks depth path s).filter Chunk.isComment = commentChunks depth path s := by
  unfold commentChunks
  split <;> rfl

theorem filter_isComment_blockChunks (s : Setting) (depth : Nat) (inner : List Chunk) :
    (s.blockChunks depth inner).filter Chunk.isComment = inner.filter Chunk.isComment := by
  unfold blockChunks
  split <;> simp [Chunk.isComment]

mutual

/-- The comments among the chunks of a setting are its own and those of the settings inside. -/
theorem filter_bodyChunks : ∀ {s : Setting} {around : List Setting} {body : List Chunk},
    s.isDocumented = true →
    bodyChunks (levelsIn around) (pathTo (s :: around)) s = .ok body →
    commentChunks (levelsIn around) (pathTo (s :: around)) s ++ body.filter Chunk.isComment =
      (s.shownFrom around).flatMap Placed.comment
  | leaf info value, around, body, hdoc, h => by
    have hblock : (leaf info value).isBlock = false := by
      rw [bodyChunks] at h
      cases hkind : info.kind <;> simp_all [isBlock]
    obtain ⟨text, rfl⟩ := eq_value_of_bodyChunks hdoc hblock h
    simp [shownFrom, Placed.comment, Placed.path, Chunk.isComment]
  | group info cs, around, body, hdoc, h => by
    rw [shownFrom, List.flatMap_cons]
    refine congrArg (commentChunks _ _ _ ++ ·) ?_
    cases hblock : (group info cs).isBlock with
    | false =>
      obtain ⟨text, rfl⟩ := eq_value_of_bodyChunks hdoc hblock h
      rfl
    | true =>
      rw [bodyChunks_of_isBlock hblock, Nat.add_comm] at h
      cases hinner : listChunks ((group info cs).levels + levelsIn around)
          (pathTo (group info cs :: around)) false cs with
      | error e =>
        rw [hinner] at h
        cases h
      | ok inner =>
        rw [hinner] at h
        obtain rfl := Except.ok.inj h
        rw [filter_isComment_blockChunks, if_pos rfl]
        exact filter_listChunks hinner

/-- The comments among the chunks of a list are those of the settings shown of it, each in front
of what is inside its setting. -/
theorem filter_listChunks : ∀ {cs : List Setting} {around : List Setting} {expert : Bool}
    {chunks : List Chunk}, listChunks (levelsIn around) (pathTo around) expert cs = .ok chunks →
    chunks.filter Chunk.isComment = (shownAllFrom around cs).flatMap Placed.comment
  | [], around, expert, chunks, h => by
    rw [listChunks] at h
    obtain rfl := Except.ok.inj h
    cases expert <;> rfl
  | c :: cs, around, expert, chunks, h => by
    rw [shownAllFrom, List.flatMap_append]
    rcases listChunks_cons_ok h with ⟨hdoc, hrest⟩ | ⟨body, rest, hdoc, hbody, hrest, rfl⟩
    · rw [hdoc, filter_listChunks hrest]
      rfl
    · have hboundary : (if c.info.expert = expert then []
          else [Chunk.boundary c.info.expert]).filter Chunk.isComment = [] := by
        split <;> rfl
      rw [List.filter_append, List.filter_append, List.filter_append, hboundary,
        filter_isComment_commentChunks, filter_listChunks hrest, hdoc, if_pos rfl,
        ← filter_bodyChunks hdoc hbody]
      rfl

end

/-- The comments of an outline are those of the settings shown, in document order. -/
theorem filter_outline {root : Setting} {chunks : List Chunk} (h : root.outline = .ok chunks) :
    chunks.filter Chunk.isComment = root.shown.flatMap Placed.comment :=
  filter_listChunks (listChunks_of_outline h)

/-! ## What comments say -/

theorem commentChunks_of_ne_nil {s : Setting} (h : tokenize s.docText ≠ []) (depth : Nat)
    (path : String) : commentChunks depth path s = [.comment depth path (tokenize s.docText)] := by
  unfold commentChunks
  split
  · next hnil => exact absurd hnil h
  · rfl

/-- A comment of an outline is that of a setting which is shown. -/
theorem exists_shown_of_comment_mem {root : Setting} {chunks : List Chunk}
    (h : root.outline = .ok chunks) {depth : Nat} {path : String} {tokens : List Token}
    (hmem : .comment depth path tokens ∈ chunks) : ∃ p ∈ root.shown,
      depth = levelsIn p.around ∧ path = p.path ∧ tokens = tokenize p.setting.docText ∧
        tokens ≠ [] := by
  have hcomment := List.mem_filter.mpr ⟨hmem, (rfl : Chunk.isComment (.comment ..) = true)⟩
  rw [filter_outline h] at hcomment
  obtain ⟨p, hp, hc⟩ := List.mem_flatMap.mp hcomment
  unfold Placed.comment commentChunks at hc
  split at hc
  · cases hc
  · next hne =>
    cases List.mem_singleton.mp hc
    exact ⟨p, hp, rfl, rfl, rfl, hne⟩

/-- A setting whose comment has a link with blanks in it, and characters that HTML escapes. -/
def scale : Setting :=
  .make "Scale" .int (.int 3) "see ([the map docs](a?b&c)), at most <9>"

/-- The setting `scale` in a block for experts, behind one that is left out. -/
def atlas : Setting :=
  .makeGroup "Prefs" .struct [(Setting.make "Cache" .bool (.bool true) "unseen").asInternal,
    (Setting.makeGroup "Map" .struct [scale] "").asExpert] ""

end Setting

end SettingsCompiler
