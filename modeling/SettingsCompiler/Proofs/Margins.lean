import SettingsCompiler.Proofs.Commentary
import SettingsCompiler.Proofs.Filling

/-!
# Comments within the width

The pieces of a comment are as wide as what a reader sees of them : the plain token, or the HTML
token without its tags and with its entities read (`Token.visible`). So a run that fits the columns
left behind indentation and marker is a line that fits the width, and a run of several tokens does
fit them (`FitsLines.of_runs`). Where the indentation leaves no columns at all, no gap fits either,
and every line has one token.

`withoutTags` drops what stands between `<` and `>`. As tags and escaped texts are read one behind
another (`tagReader`), a comment is left with the escaped lines that the reader sees
(`visibleText_comment`).
-/

namespace SettingsCompiler

namespace Docs

open Text

/-! ## What a reader of HTML sees -/

/-- What is seen of a token : a link without its target. -/
def Token.visible : Token → String
  | word text => text
  | link lead label _ tail => lead ++ label ++ tail

/-- A text without tags, where a tag is open in front of it iff `inside`. -/
def withoutTags (inside : Bool) : List Char → List Char
  | [] => []
  | c :: cs =>
    if inside then withoutTags (c ≠ '>') cs
    else if c = '<' then withoutTags true cs
    else c :: withoutTags false cs

/-- A text of HTML without its tags, with its entities read. -/
def visibleText (html : String) : String :=
  String.ofList (decode (withoutTags false html.toList))

/-- A text without tags is left as it is. -/
theorem yields_withoutTags : ∀ {u : List Char}, '<' ∉ u → Yields (withoutTags false) u u
  | [], _ => fun _ => rfl
  | c :: u, h => by
    obtain ⟨hc, hu⟩ := List.ne_and_not_mem_of_not_mem_cons h
    intro rest
    rw [List.cons_append, withoutTags, if_neg Bool.false_ne_true, if_neg (Ne.symm hc),
      yields_withoutTags hu rest, List.cons_append]

theorem withoutTags_inside (rest : List Char) : ∀ {u : List Char}, '>' ∉ u →
    withoutTags true (u ++ '>' :: rest) = withoutTags false rest
  | [], _ => by simp [withoutTags]
  | c :: u, h => by
    obtain ⟨hc, hu⟩ := List.ne_and_not_mem_of_not_mem_cons h
    rw [List.cons_append, withoutTags, if_pos rfl, decide_eq_true (Ne.symm hc),
      withoutTags_inside rest hu]

/-- Nothing is left of a tag. -/
theorem yields_tag {u : List Char} (h : '>' ∉ u) :
    Yields (withoutTags false) ('<' :: (u ++ ['>'])) [] := by
  intro rest
  rw [List.cons_append, List.append_assoc, List.singleton_append, withoutTags,
    if_neg Bool.false_ne_true, if_pos rfl, withoutTags_inside rest h, List.nil_append]

/-- The reader that takes out all tags. -/
def tagReader : MarkupReader Char where
  read := withoutTags false
  ofText u := u
  ofTag _ := []
  ofQuoting _ _ := []
  yields_text := yields_withoutTags
  yields_tag htag := by
    obtain ⟨u, hu, hgt, -⟩ := exists_of_mem_plainTags htag
    exact hu ▸ yields_tag hgt
  yields_quoting htag s := by
    obtain ⟨u, hu, hgt, -⟩ := exists_of_mem_quotingTags htag
    have hin : '>' ∉ u ++ '\x22' :: ((escape s).toList ++ ['\x22']) := by
      simpa [hgt] using not_mem_escape (.inr (.inl rfl)) s
    have hyields := yields_tag hin
    simpa [hu] using hyields

/-- Nothing is left of the HTML of a token but its visible text, escaped. -/
theorem ofToken_tagReader (t : Token) : tagReader.ofToken t = (escape t.visible).toList := by
  cases t with
  | word text => rfl
  | link lead label url tail =>
    simp [MarkupReader.ofToken, tagReader, Token.visible]

theorem Token.IsOneLine.visible {t : Token} (h : t.IsOneLine) : '\n' ∉ t.visible.toList := by
  cases t <;> simp_all [IsOneLine, spelled, Token.visible]

/-- A line of escaped tokens is an escaped line : what stands in front of them has nothing to
escape. -/
theorem escape_commentLine (depth : Nat) (spelling : Token → String) (run : List Token) :
    commentLine depth (fun t => escape (spelling t)) run =
      escape (commentLine depth spelling run) := by
  have hmark : IsOrdinary "; " := by decide
  have hspace : IsOrdinary " " := by decide
  have hjoin := escape_joinWith hspace (run.map spelling)
  rw [List.map_map] at hjoin
  rw [commentLine, commentLine, escape_append, escape_append, (isOrdinary_indent depth).escape_eq,
    hmark.escape_eq, ← hjoin]
  rfl

theorem escape_unlines : ∀ ss : List String, unlines (ss.map escape) = escape (unlines ss)
  | [] => rfl
  | s :: ss => by
    have ih := escape_unlines ss
    have hbreak : IsOrdinary "\n" := by decide
    rw [List.map_cons, unlines, unlines, ih, escape_append, escape_append, hbreak.escape_eq]

/-- What is seen of a comment are the lines that its visible tokens make. -/
theorem visibleText_comment {depth width : Nat} (path : String) {tokens : List Token}
    {runs : List (List Token)} (hne : runs ≠ [])
    (h : fill (roomFor depth width) (tokens.map Style.html.piece) =
      runs.map (List.map Style.html.piece)) :
    visibleText ((Chunk.comment depth path tokens).render .html width) =
      unlines (runs.map (commentLine depth Token.visible)) := by
  have hread := tagReader.read_comment rfl (fun _ => rfl) (fun _ => rfl) rfl ofToken_tagReader path
    hne h
  have hlines : runs.map (commentLine depth fun t => escape t.visible) =
      (runs.map (commentLine depth Token.visible)).map escape := by
    rw [List.map_map]
    exact List.map_congr_left fun run _ => escape_commentLine depth Token.visible run
  rw [hlines, escape_unlines] at hread
  have hleft := congrArg String.toList hread
  rw [String.toList_ofList, toList_escape] at hleft
  rw [visibleText]
  refine String.toList_injective ?_
  rw [String.toList_ofList]
  exact (congrArg decode hleft).trans (decode_flatMap_escapeChar _)

/-! ## Lines within the width -/

/-- Joined by spaces, strings are as long as they are together, and one more for each gap. -/
theorem length_joinWith_space : ∀ ss : List String,
    (joinWith " " ss).length = (ss.map String.length).sum + (ss.length - 1)
  | [] => rfl
  | [s] => by simp [joinWith]
  | s :: t :: ss => by
    have ih := length_joinWith_space (t :: ss)
    have hspace : " ".length = 1 := rfl
    rw [joinWith, String.length_append, String.length_append, ih, hspace]
    simp only [List.map_cons, List.sum_cons, List.length_cons]
    omega

/-- The lines carry runs of the tokens, and one that is longer than the width has a single
token. -/
def FitsLines (width depth : Nat) (spelling : Token → String) (tokens : List Token)
    (ls : List String) : Prop :=
  ∃ runs : List (List Token), runs.flatten = tokens ∧
    List.Forall₂ (fun run line => line = commentLine depth spelling run ∧
      (line.length ≤ width ∨ ∃ t, run = [t])) runs ls

section Fits

variable {style : Style} {spelling : Token → String}
  (hwidth : ∀ t, (style.piece t).width = (spelling t).length)
include hwidth

/-- A line is as long as its indentation, its marker and the columns of its run together. -/
theorem length_commentLine (depth : Nat) (run : List Token) :
    (commentLine depth spelling run).length =
      (indent depth).length + markerWidth + columns (run.map style.piece) := by
  have hmark : "; ".length = markerWidth := rfl
  have hsum : (run.map spelling).map String.length = (run.map style.piece).map Piece.width := by
    rw [List.map_map, List.map_map]
    exact List.map_congr_left fun t _ => (hwidth t).symm
  rw [commentLine, String.length_append, String.length_append, hmark, length_joinWith_space, hsum,
    columns, List.length_map, List.length_map]

/-- Filled lines fit : a run of several tokens has a gap, so there was room for it behind the
indentation. -/
theorem FitsLines.of_runs {width depth : Nat} {runs : List (List Token)} {tokens : List Token}
    (hflat : runs.flatten = tokens) (hfill : fill (roomFor depth width) (tokens.map style.piece) =
      runs.map (List.map style.piece)) :
    FitsLines width depth spelling tokens (runs.map (commentLine depth spelling)) := by
  refine ⟨runs, hflat, List.forall₂_map_right_iff.mpr (List.forall₂_same.mpr fun run hrun => ?_)⟩
  refine ⟨rfl, ?_⟩
  have hsplit := (isGreedy_fill (roomFor depth width) (tokens.map style.piece)).toIsSplit
  have hmem : run.map style.piece ∈ fill (roomFor depth width) (tokens.map style.piece) :=
    hfill ▸ List.mem_map_of_mem hrun
  match run with
  | [] => exact absurd rfl (hsplit.ne_nil _ hmem)
  | [t] => exact .inr ⟨t, rfl⟩
  | t :: u :: run =>
    left
    have hfits := hsplit.fits _ hmem (by simp)
    have hgap : 1 ≤ columns ((t :: u :: run).map style.piece) := by
      simp only [columns, List.map_cons, List.length_cons]
      omega
    rw [length_commentLine hwidth]
    rw [roomFor] at hfits
    omega

end Fits

end Docs

namespace Setting

open Docs

/-- The lines of a comment hold within the width, plain and as a reader of HTML sees them. -/
theorem fitsLines_comment {text : String} (hne : tokenize text ≠ []) (depth width : Nat)
    (path : String) :
    FitsLines width depth Token.plain (tokenize text)
        (Text.lines ((Chunk.comment depth path (tokenize text)).render .plain width)) ∧
      FitsLines width depth Token.visible (tokenize text)
        (Text.lines (visibleText
          ((Chunk.comment depth path (tokenize text)).render .html width))) := by
  have hline : ∀ t ∈ tokenize text, t.IsOneLine := isOneLine_of_mem_tokenize
  constructor
  · obtain ⟨runs, hflat, -, hfill⟩ := exists_runs .plain (roomFor depth width) (tokenize text)
    rw [render_plain_comment hfill, lines_unlines_commentLine hflat fun t ht => (hline t ht).plain]
    exact .of_runs (fun _ => rfl) hflat hfill
  · obtain ⟨runs, hflat, -, hfill⟩ := exists_runs .html (roomFor depth width) (tokenize text)
    have hsome : runs ≠ [] := by
      rintro rfl
      exact hne hflat.symm
    rw [visibleText_comment path hsome hfill,
      lines_unlines_commentLine hflat fun t ht => (hline t ht).visible]
    refine .of_runs (fun t => ?_) hflat hfill
    cases t <;> simp [Style.html, Token.html, Token.visible, String.length_append]

/-- In both styles of the documentation, the lines of each comment carry runs of its tokens as the
reader sees them, behind indentation and marker. A line longer than the width has a single token. -/
theorem fitsWidth {root : Setting} {width : Nat} {text html : String}
    (htext : renderText width root = .ok text) (hhtml : renderHtml width root = .ok html) :
    ∃ chunks, root.outline = .ok chunks ∧ text = renderChunks .plain width chunks ∧
      html = renderChunks .html width chunks ∧
      ∀ depth path tokens, Chunk.comment depth path tokens ∈ chunks →
        FitsLines width depth Token.plain tokens
          (Text.lines ((Chunk.comment depth path tokens).render .plain width)) ∧
        FitsLines width depth Token.visible tokens
          (Text.lines (visibleText ((Chunk.comment depth path tokens).render .html width))) := by
  obtain ⟨chunks, houtline, rfl⟩ := render_eq_ok_iff.mp htext
  obtain ⟨chunks', houtline', rfl⟩ := render_eq_ok_iff.mp hhtml
  obtain rfl := Except.ok.inj (houtline.symm.trans houtline')
  refine ⟨chunks, houtline, rfl, rfl, fun depth path tokens hmem => ?_⟩
  obtain ⟨p, -, -, -, rfl, hne⟩ := exists_shown_of_comment_mem houtline hmem
  exact fitsLines_comment hne depth width path

/-- The indentation of the comment in `atlas` is alone wider than one column. -/
theorem fitsWidth_atlas : ∃ text html chunks, renderText 1 atlas = .ok text ∧
    renderHtml 1 atlas = .ok html ∧ atlas.outline = .ok chunks ∧
    Chunk.comment 1 "Map.Scale" (tokenize scale.docText) ∈ chunks ∧
    FitsLines 1 1 Token.plain (tokenize scale.docText) (Text.lines
      ((Chunk.comment 1 "Map.Scale" (tokenize scale.docText)).render .plain 1)) ∧
    FitsLines 1 1 Token.visible (tokenize scale.docText) (Text.lines (visibleText
      ((Chunk.comment 1 "Map.Scale" (tokenize scale.docText)).render .html 1))) := by
  have hrender : (∃ text, renderText 1 atlas = .ok text) ∧ ∃ html, renderHtml 1 atlas = .ok html :=
    ⟨⟨_, rfl⟩, _, rfl⟩
  obtain ⟨⟨text, htext⟩, html, hhtml⟩ := hrender
  obtain ⟨chunks, houtline, -, -, hfits⟩ := fitsWidth htext hhtml
  have hmem : Chunk.comment 1 "Map.Scale" (tokenize scale.docText) ∈ chunks := by
    have hchunks : atlas.outline = .ok [.boundary true, .opening 0 (some "Map"),
        .comment 1 "Map.Scale" (tokenize scale.docText), .value 1 "Scale" "3", .closing 0,
        .boundary false] := by decide
    obtain rfl := Except.ok.inj (houtline.symm.trans hchunks)
    simp
  exact ⟨text, html, chunks, htext, hhtml, houtline, hmem, hfits _ _ _ hmem⟩

end Setting

end SettingsCompiler
