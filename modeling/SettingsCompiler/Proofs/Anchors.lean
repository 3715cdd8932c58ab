import SettingsCompiler.Proofs.Commentary

/-!
# Anchors of a page

The element around a comment has the dotted path of its setting as its id. If names are steps of a
path, not empty and without dots, a path is cut at its dots into the names of the settings that it
leads through (`pieces_pathTo`). Two settings that are shown share all these names only if two
settings of one list share theirs (`nodup_shownFrom`), so the anchors of a page differ where the
names in each list do (`nodup_anchors`).

`idsFrom` reads the ids off a page as HTML has them, and `idReader` those of the parts of a comment.
Nothing else in the documentation has a tag with an id (`yields_chunk`), but for names : they are
written as they are, and one that holds a tag can repeat an anchor (`forged`).
-/

namespace SettingsCompiler

namespace Docs

open Text

/-! ## Ids of HTML -/

/-- What a reader of HTML is inside of : text, a tag, or a quoted value in a tag. It has the
characters since the tag or the value began, the last one first. -/
inductive Inside
  | text
  | tag (read : List Char)
  | quoted (isId : Bool) (read : List Char)

/-- The quoted values of the attributes `id`, from somewhere inside HTML. -/
def idsFrom : Inside → List Char → List (List Char)
  | _, [] => []
  | .text, c :: cs => if c = '<' then idsFrom (.tag []) cs else idsFrom .text cs
  | .tag read, c :: cs =>
    if c = '>' then idsFrom .text cs
    else if c = '\x22' then idsFrom (.quoted (read.take 4 = " id=".toList.reverse) []) cs
    else idsFrom (.tag (c :: read)) cs
  | .quoted isId read, c :: cs =>
    if c = '\x22' then (if isId then [read.reverse] else []) ++ idsFrom (.tag []) cs
    else idsFrom (.quoted isId (c :: read)) cs

/-- The ids of a page, with their entities read. -/
def idValues (html : String) : List String :=
  (idsFrom .text html.toList).map fun value => String.ofList (decode value)

theorem yields_ids_text : ∀ {u : List Char}, '<' ∉ u → Yields (idsFrom .text) u []
  | [], _ => fun _ => rfl
  | c :: u, h => by
    obtain ⟨hc, hu⟩ := List.ne_and_not_mem_of_not_mem_cons h
    intro rest
    rw [List.cons_append, idsFrom, if_neg (Ne.symm hc)]
    exact yields_ids_text hu rest

/-- A tag without quoted values has no id. -/
theorem idsFrom_tag (rest : List Char) : ∀ {u : List Char} (read : List Char), '>' ∉ u →
    '\x22' ∉ u → idsFrom (.tag read) (u ++ '>' :: rest) = idsFrom .text rest
  | [], read, _, _ => by rw [List.nil_append, idsFrom, if_pos rfl]
  | c :: u, read, hgt, hquote => by
    obtain ⟨hc, hgt⟩ := List.ne_and_not_mem_of_not_mem_cons hgt
    obtain ⟨hc', hquote⟩ := List.ne_and_not_mem_of_not_mem_cons hquote
    rw [List.cons_append, idsFrom, if_neg (Ne.symm hc), if_neg (Ne.symm hc'),
      idsFrom_tag rest _ hgt hquote]

theorem idsFrom_quote (rest : List Char) : ∀ {u : List Char} (read : List Char), '>' ∉ u →
    '\x22' ∉ u → idsFrom (.tag read) (u ++ '\x22' :: rest) =
      idsFrom (.quoted ((u.reverse ++ read).take 4 = " id=".toList.reverse) []) rest
  | [], read, _, _ => by
    rw [List.nil_append, idsFrom, if_neg (by decide), if_pos rfl]
    rfl
  | c :: u, read, hgt, hquote => by
    obtain ⟨hc, hgt⟩ := List.ne_and_not_mem_of_not_mem_cons hgt
    obtain ⟨hc', hquote⟩ := List.ne_and_not_mem_of_not_mem_cons hquote
    rw [List.cons_append, idsFrom, if_neg (Ne.symm hc), if_neg (Ne.symm hc'),
      idsFrom_quote rest _ hgt hquote, List.reverse_cons, List.append_assoc]
    rfl

theorem idsFrom_quoted (rest : List Char) (isId : Bool) : ∀ {u : List Char} (read : List Char),
    '\x22' ∉ u → idsFrom (.quoted isId read) (u ++ '\x22' :: rest) =
      (if isId then [read.reverse ++ u] else []) ++ idsFrom (.tag []) rest
  | [], read, _ => by rw [List.nil_append, idsFrom, if_pos rfl, List.append_nil]
  | c :: u, read, h => by
    obtain ⟨hc, hu⟩ := List.ne_and_not_mem_of_not_mem_cons h
    rw [List.cons_append, idsFrom, if_neg (Ne.symm hc), idsFrom_quoted rest isId _ hu,
      List.reverse_cons, List.append_assoc, List.singleton_append]

/-- A tag with one quoted value has this value as an id iff it is called so. -/
theorem yields_ids_quoting {u v : List Char} (hgt : '>' ∉ u) (hquote : '\x22' ∉ u)
    (hv : '\x22' ∉ v) : Yields (idsFrom .text) ('<' :: (u ++ '\x22' :: (v ++ "\">".toList)))
      (if u.reverse.take 4 = " id=".toList.reverse then [v] else []) := by
  intro rest
  have hend : "\">".toList ++ rest = '\x22' :: ([] ++ '>' :: rest) := rfl
  simp only [List.cons_append, List.append_assoc, hend]
  rw [idsFrom, if_pos rfl, idsFrom_quote _ _ hgt hquote, idsFrom_quoted _ _ _ hv,
    idsFrom_tag rest _ List.not_mem_nil List.not_mem_nil, List.append_nil]
  simp

/-- A tag without a quoted value has no id. -/
theorem yields_ids_tag {u : List Char} (hgt : '>' ∉ u) (hquote : '\x22' ∉ u) :
    Yields (idsFrom .text) ('<' :: (u ++ ['>'])) [] := by
  intro rest
  rw [List.cons_append, List.append_assoc, List.singleton_append, idsFrom, if_pos rfl,
    idsFrom_tag rest _ hgt hquote, List.nil_append]

/-- The reader that keeps the ids. -/
def idReader : MarkupReader (List Char) where
  read := idsFrom .text
  ofText _ := []
  ofTag _ := []
  ofQuoting tag s := if tag = "<span class=cm id=\"" then [(escape s).toList] else []
  yields_text := yields_ids_text
  yields_tag htag := by
    obtain ⟨u, hu, hgt, hquote⟩ := exists_of_mem_plainTags htag
    exact hu ▸ yields_ids_tag hgt hquote
  yields_quoting {tag} htag s := by
    have hs : '\x22' ∉ (escape s).toList := not_mem_escape (.inr (.inr rfl)) s
    simp only [quotingTags, List.mem_cons, List.not_mem_nil, or_false] at htag
    rcases htag with rfl | rfl
    · have hread := yields_ids_quoting (u := "span class=cm id=".toList) (by decide) (by decide) hs
      rw [if_pos (by decide)] at hread
      simpa using hread
    · have hread := yields_ids_quoting (u := "a href=".toList) (by decide) (by decide) hs
      rw [if_neg (by decide)] at hread
      simpa using hread

/-! ### Ids of a page -/

/-- The path that a chunk has as its id. -/
def Chunk.anchor? : Chunk → Option String
  | comment _ path _ => some path
  | value .. | opening .. | closing _ | boundary _ => none

theorem intercalate_nil_of_forall {β : Type} : ∀ {ls : List (List β)}, (∀ l ∈ ls, l = []) →
    List.intercalate [] ls = []
  | [], _ => rfl
  | [l], h => by
    rw [List.intercalate_singleton]
    exact h l List.mem_cons_self
  | l :: l' :: ls, h => by
    obtain ⟨hl, hls⟩ := List.forall_mem_cons.mp h
    rw [List.intercalate_cons_cons, hl, intercalate_nil_of_forall hls]
    rfl

/-- The tokens of a comment have no ids. -/
theorem ofLine_idReader (run : List Token) : idReader.ofLine run = [] := by
  refine intercalate_nil_of_forall fun l hl => ?_
  obtain ⟨t, -, rfl⟩ := List.mem_map.mp hl
  cases t <;> simp [MarkupReader.ofToken, idReader]

/-- Of a chunk its path is read, if nothing in its name begins a tag. -/
theorem yields_chunk (width : Nat) (c : Chunk) (h : ∀ n, c.name? = some n → '<' ∉ n.toList) :
    Yields (idsFrom .text) (c.render .html width).toList
      (c.anchor?.toList.map fun path => (escape path).toList) := by
  cases c with
  | comment depth path tokens =>
    obtain ⟨runs, -, -, hfill⟩ := exists_runs .html (roomFor depth width) tokens
    have hlines : List.intercalate (idReader.ofText ("\n" ++ indent depth).toList)
        (runs.map idReader.ofLine) = [] := by
      refine intercalate_nil_of_forall fun l hl => ?_
      obtain ⟨run, -, rfl⟩ := List.mem_map.mp hl
      exact ofLine_idReader run
    have hcomment := idReader.yields_comment path hfill
    rwa [hlines] at hcomment
  | value depth name text =>
    refine yields_ids_text fun hlt => ?_
    rw [Chunk.render, trimmedLine, String.toList_append, String.toList_ofList,
      List.mem_append] at hlt
    have hline : '<' ∈ (indent depth ++ name ++ " = " ++ escape text).toList :=
      hlt.elim (fun hlt => trimEnd_subset _ hlt) fun hlt => absurd hlt (by decide)
    simp only [String.toList_append, List.mem_append] at hline
    rcases hline with ((hlt | hlt) | hlt) | hlt
    · exact lt_not_mem_indent depth hlt
    · exact h name rfl hlt
    · revert hlt
      decide
    · exact not_mem_escape (.inl rfl) text hlt
  | opening depth name =>
    refine yields_ids_text ?_
    cases name with
    | none => simpa [Chunk.render] using lt_not_mem_indent depth
    | some name => simpa [Chunk.render] using ⟨lt_not_mem_indent depth, h name rfl⟩
  | closing depth =>
    refine yields_ids_text ?_
    simpa [Chunk.render] using lt_not_mem_indent depth
  | boundary entering =>
    have hbreak : Yields (idsFrom .text) "\n".toList [] := yields_ids_text (by decide)
    have hline {tag : String} (htag : tag ∈ plainTags) :
        Yields (idsFrom .text) (tag ++ "\n").toList [] :=
      (idReader.yields_tag htag).append_string hbreak
    cases entering with
    | false =>
      have htag : "</div>" ∈ plainTags := by decide
      have hclose : (Chunk.boundary false).render .html width = "</div>" ++ "\n" :=
        (by decide : "</div>\n" = "</div>" ++ "\n")
      exact hclose ▸ hline htag
    | true =>
      have htag : "<div class=expert>" ∈ plainTags := by decide
      have hopen : (Chunk.boundary true).render .html width = "<div class=expert>" ++ "\n" :=
        (by decide : "<div class=expert>\n" = "<div class=expert>" ++ "\n")
      exact hopen ▸ hline htag

/-- The ids of an outline are read chunk by chunk, if nothing in the names begins a tag. -/
theorem yields_renderChunks (width : Nat) : ∀ {chunks : List Chunk},
    (∀ n ∈ namesOf chunks, '<' ∉ n.toList) →
    Yields (idsFrom .text) (renderChunks .html width chunks).toList
      ((chunks.filterMap Chunk.anchor?).map fun path => (escape path).toList)
  | [], _ => fun _ => rfl
  | c :: cs, h => by
    obtain ⟨hc, hcs⟩ := forall_mem_namesOf_cons.mp h
    have hall := (yields_chunk width c hc).append_string (yields_renderChunks width hcs)
    have hanchors : (c :: cs).filterMap Chunk.anchor? =
        c.anchor?.toList ++ cs.filterMap Chunk.anchor? := by
      rw [List.filterMap_cons]
      cases c.anchor? <;> rfl
    rwa [hanchors, List.map_append]

/-- If nothing in the names begins a tag, the ids of a page are the paths of its comments. -/
theorem idValues_renderChunks {width : Nat} {chunks : List Chunk}
    (h : ∀ n ∈ namesOf chunks, '<' ∉ n.toList) :
    idValues (renderChunks .html width chunks) = chunks.filterMap Chunk.anchor? := by
  have hread := yields_renderChunks width h []
  rw [List.append_nil] at hread
  rw [idValues, hread, idsFrom, List.append_nil, List.map_map]
  refine (List.map_congr_left fun path _ => ?_).trans (List.map_id _)
  simp [decode_flatMap_escapeChar]

end Docs

namespace Setting

open Docs

/-! ## Paths of settings -/

/-- A name that can be a step of a dotted path. -/
def IsStep (name : String) : Prop :=
  name ≠ "" ∧ '.' ∉ name.toList

instance (name : String) : Decidable (IsStep name) :=
  inferInstanceAs (Decidable (_ ∧ _))

theorem childPath_ne_empty {name : String} (h : name ≠ "") (path : String) :
    childPath path name ≠ "" := by
  unfold childPath
  split
  · exact h
  · simp [h]

/-- A path is cut at its dots into the names of the settings it leads through. -/
theorem pieces_pathTo : ∀ {ss : List Setting}, ss ≠ [] → (∀ s ∈ ss, IsStep s.info.name) →
    Text.pieces (· = '.') (pathTo ss).toList =
      ((ss.map fun s => s.info.name).map String.toList).reverse
  | s :: ss, _, h => by
    obtain ⟨⟨-, hdot⟩, hss⟩ := List.forall_mem_cons.mp h
    have hname : Text.pieces (· = '.') s.info.name.toList = [s.info.name.toList] :=
      Text.pieces_of_forall fun c hc => decide_eq_false fun hd => hdot (hd ▸ hc)
    cases ss with
    | nil => exact hname
    | cons t ss =>
      have ih := pieces_pathTo (List.cons_ne_nil t ss) hss
      have hne : pathTo (t :: ss) ≠ "" := childPath_ne_empty (hss t List.mem_cons_self).1 _
      have hpath : (pathTo (s :: t :: ss)).toList =
          (pathTo (t :: ss)).toList ++ '.' :: s.info.name.toList := by
        rw [pathTo, childPath, if_neg hne]
        simp
      rw [hpath, Text.pieces_append_sep (by decide), ih, hname]
      simp

/-- The names of the settings that the path of a setting leads through, its own first. -/
def Placed.names (p : Placed) : List String :=
  (p.setting :: p.around).map fun s => s.info.name

/-- A path tells the names that it was made of. -/
theorem Placed.names_eq_of_path_eq {p q : Placed}
    (hp : ∀ s ∈ p.setting :: p.around, IsStep s.info.name)
    (hq : ∀ s ∈ q.setting :: q.around, IsStep s.info.name) (h : p.path = q.path) :
    p.names = q.names := by
  have hpieces : (p.names.map String.toList).reverse = (q.names.map String.toList).reverse := by
    rw [names, names, ← pieces_pathTo (List.cons_ne_nil _ _) hp,
      ← pieces_pathTo (List.cons_ne_nil _ _) hq]
    exact congrArg (fun path => Text.pieces (· = '.') path.toList) h
  exact List.map_injective_iff.mpr (fun _ _ => String.toList_injective)
    (List.reverse_injective hpieces)

/-! ## Names on the way to a setting -/

mutual

/-- The way to a setting shown with `s` leads through `s`, and on through settings shown with
it. -/
theorem exists_inner_of_mem_shownFrom : ∀ {s : Setting} {around : List Setting} {p : Placed},
    p ∈ s.shownFrom around →
    ∃ inner, p.setting :: p.around = inner ++ s :: around ∧ ∀ x ∈ inner, s.Displays x
  | leaf info value, around, p, hp => by
    obtain rfl := List.mem_singleton.mp hp
    exact ⟨[], rfl, nofun⟩
  | group info cs, around, p, hp => by
    rw [shownFrom] at hp
    rcases List.mem_cons.mp hp with rfl | hp
    · exact ⟨[], rfl, nofun⟩
    · split at hp
      · next hblock =>
        obtain ⟨c, hc, hdoc, inner, heq, hinner⟩ := exists_inner_of_mem_shownAllFrom hp
        have hinside {x : Setting} (hx : c.Displays x) : (group info cs).Displays x :=
          .inside (isBlock_iff.mp hblock) hc hdoc hx
        refine ⟨inner ++ [c], by rw [heq, List.append_assoc, List.singleton_append], ?_⟩
        rw [List.forall_mem_append]
        exact ⟨fun x hx => hinside (hinner x hx), List.forall_mem_singleton.mpr (hinside .self)⟩
      · cases hp

/-- The way to a setting shown of a list leads through one documented setting of it. -/
theorem exists_inner_of_mem_shownAllFrom : ∀ {cs : List Setting} {around : List Setting}
    {p : Placed}, p ∈ shownAllFrom around cs → ∃ c ∈ cs, c.isDocumented = true ∧
    ∃ inner, p.setting :: p.around = inner ++ c :: around ∧ ∀ x ∈ inner, c.Displays x
  | c :: cs, around, p, hp => by
    rw [shownAllFrom] at hp
    rcases List.mem_append.mp hp with hp | hp
    · split at hp
      · next hdoc => exact ⟨c, List.mem_cons_self, hdoc, exists_inner_of_mem_shownFrom hp⟩
      · cases hp
    · obtain ⟨d, hd, hinner⟩ := exists_inner_of_mem_shownAllFrom hp
      exact ⟨d, List.mem_cons_of_mem c hd, hinner⟩

end

/-- The settings on the way to one that is shown are shown. -/
theorem isShownIn_of_mem_shown {root : Setting} {p : Placed} (hp : p ∈ root.shown) :
    ∀ s ∈ p.setting :: p.around, IsShownIn root s := by
  obtain ⟨c, hc, hdoc, inner, heq, hinner⟩ := exists_inner_of_mem_shownAllFrom hp
  rw [heq, List.forall_mem_append]
  exact ⟨fun s hs => ⟨c, hc, hdoc, hinner s hs⟩, List.forall_mem_singleton.mpr ⟨c, hc, hdoc, .self⟩⟩

/-- The documented settings of a list have different names. -/
def SiblingsApart (cs : List Setting) : Prop :=
  ((cs.filter isDocumented).map fun c => c.info.name).Nodup

instance (cs : List Setting) : Decidable (SiblingsApart cs) :=
  inferInstanceAs (Decidable (List.Nodup _))

theorem siblingsApart_cons_iff {c : Setting} {cs : List Setting} :
    SiblingsApart (c :: cs) ↔
      (c.isDocumented = true → ∀ d ∈ cs, d.isDocumented = true → c.info.name ≠ d.info.name) ∧
        SiblingsApart cs := by
  unfold SiblingsApart
  cases hdoc : c.isDocumented with
  | false => simp [hdoc]
  | true =>
    rw [List.filter_cons_of_pos hdoc, List.map_cons, List.nodup_cons]
    simp [@eq_comm _ c.info.name]

mutual

/-- If siblings have different names, two settings shown have different names on their ways. -/
theorem nodup_shownFrom : ∀ {s : Setting} {around : List Setting},
    (∀ x, s.Displays x → x.isBlock = true → SiblingsApart x.children) →
    ((s.shownFrom around).map Placed.names).Nodup
  | leaf info value, around, _ => List.nodup_singleton _
  | group info cs, around, h => by
    rw [shownFrom]
    split
    · next hblock =>
      refine List.nodup_cons.mpr ⟨fun hmem => ?_, nodup_shownAllFrom (h _ .self hblock)
        fun c hc hdoc x hx => h x (.inside (isBlock_iff.mp hblock) hc hdoc hx)⟩
      -- the way to a setting inside is longer
      obtain ⟨p, hp, hnames⟩ := List.mem_map.mp hmem
      obtain ⟨c, -, -, inner, heq, -⟩ := exists_inner_of_mem_shownAllFrom hp
      have hlength := congrArg List.length hnames
      simp only [Placed.names, heq, List.length_map, List.length_append, List.length_cons]
        at hlength
      omega
    · exact List.nodup_singleton _

/-- Two settings shown of a list have different names on their ways, if siblings do in it and
inside. -/
theorem nodup_shownAllFrom : ∀ {cs : List Setting} {around : List Setting}, SiblingsApart cs →
    (∀ c ∈ cs, c.isDocumented = true →
      ∀ x, c.Displays x → x.isBlock = true → SiblingsApart x.children) →
    ((shownAllFrom around cs).map Placed.names).Nodup
  | [], around, _, _ => List.nodup_nil
  | c :: cs, around, hapart, h => by
    obtain ⟨hfirst, hrest⟩ := siblingsApart_cons_iff.mp hapart
    obtain ⟨hc, hcs⟩ := List.forall_mem_cons.mp h
    have ih : ((shownAllFrom around cs).map Placed.names).Nodup := nodup_shownAllFrom hrest hcs
    rw [shownAllFrom]
    cases hdoc : c.isDocumented with
    | false => exact ih
    | true =>
      rw [if_pos rfl, List.map_append]
      refine (nodup_shownFrom (hc hdoc)).append ih fun names hleft hright => ?_
      -- in front of the names around the list, the ways go through different siblings
      obtain ⟨p, hp, hpnames⟩ := List.mem_map.mp hleft
      obtain ⟨q, hq, hqnames⟩ := List.mem_map.mp hright
      obtain ⟨inner, hpway, -⟩ := exists_inner_of_mem_shownFrom hp
      obtain ⟨d, hd, hddoc, inner', hqway, -⟩ := exists_inner_of_mem_shownAllFrom hq
      have hways : (inner ++ c :: around).map (fun s => s.info.name) =
          (inner' ++ d :: around).map fun s => s.info.name := by
        rw [← hpway, ← hqway]
        exact hpnames.trans hqnames.symm
      rw [List.map_append, List.map_append] at hways
      have hends := List.append_inj_right' hways (by simp)
      exact hfirst hdoc d hd hddoc (List.cons.inj hends).1

end

/-! ## Anchors -/

/-- The settings shown have names that can be steps of a path, and different ones in each list. -/
structure NamesApart (root : Setting) : Prop where
  steps : ∀ x, IsShownIn root x → IsStep x.info.name
  top : SiblingsApart root.children
  inside : ∀ x, IsShownIn root x → x.isBlock = true → SiblingsApart x.children

theorem forall_isShownIn_iff {root : Setting} {P : Setting → Prop} :
    (∀ x, IsShownIn root x → P x) ↔ ∀ p ∈ root.shown, P p.setting := by
  have hshown (x : Setting) : IsShownIn root x ↔ ∃ p ∈ root.shown, p.setting = x :=
    mem_shownAllFrom_iff.symm
  simp only [hshown, forall_exists_index, and_imp]
  exact ⟨fun h p hp => h _ p hp rfl, fun h x p hp hx => hx ▸ h p hp⟩

theorem namesApart_iff {root : Setting} : NamesApart root ↔
    SiblingsApart root.children ∧ ∀ p ∈ root.shown, IsStep p.setting.info.name ∧
      (p.setting.isBlock = true → SiblingsApart p.setting.children) := by
  rw [← forall_isShownIn_iff (P := fun x => IsStep x.info.name ∧
    (x.isBlock = true → SiblingsApart x.children))]
  exact ⟨fun h => ⟨h.top, fun x hx => ⟨h.steps x hx, h.inside x hx⟩⟩,
    fun ⟨htop, h⟩ => ⟨fun x hx => (h x hx).1, htop, fun x hx => (h x hx).2⟩⟩

instance (root : Setting) : Decidable (NamesApart root) :=
  decidable_of_iff _ namesApart_iff.symm

/-- The paths of the settings shown that have something to say, in document order. -/
def anchors (root : Setting) : List String :=
  (root.shown.filter fun p => tokenize p.setting.docText ≠ []).map Placed.path

/-- Where names are steps of a path and differ among siblings, so do the anchors. -/
theorem NamesApart.nodup_anchors {root : Setting} (h : NamesApart root) : root.anchors.Nodup := by
  have hnames : (root.shown.map Placed.names).Nodup := nodup_shownAllFrom h.top
    fun c hc hdoc x hx hblock => h.inside x ⟨c, hc, hdoc, hx⟩ hblock
  have hsteps {p : Placed} (hp : p ∈ root.shown) :
      ∀ s ∈ p.setting :: p.around, IsStep s.info.name :=
    fun s hs => h.steps s (isShownIn_of_mem_shown hp s hs)
  have hpaths : (root.shown.map Placed.path).Nodup := by
    rw [List.Nodup, List.pairwise_map] at hnames ⊢
    refine hnames.imp_of_mem fun hp hq hne heq => hne ?_
    exact Placed.names_eq_of_path_eq (hsteps hp) (hsteps hq) heq
  exact hpaths.sublist (List.filter_sublist.map _)

theorem filterMap_anchor?_comments : ∀ ps : List Placed,
    (ps.flatMap Placed.comment).filterMap Chunk.anchor? =
      (ps.filter fun p => tokenize p.setting.docText ≠ []).map Placed.path
  | [] => rfl
  | p :: ps => by
    have ih := filterMap_anchor?_comments ps
    rw [List.flatMap_cons, List.filterMap_append, ih]
    by_cases hne : tokenize p.setting.docText = []
    · rw [List.filter_cons_of_neg (by simpa using hne), Placed.comment, commentChunks, hne]
      rfl
    · rw [List.filter_cons_of_pos (by simpa using hne), Placed.comment,
        commentChunks_of_ne_nil hne]
      rfl

/-- The anchors of an outline are those of the settings shown, in document order. -/
theorem filterMap_anchor?_outline {root : Setting} {chunks : List Chunk}
    (h : root.outline = .ok chunks) : chunks.filterMap Chunk.anchor? = root.anchors := by
  have hcomments : chunks.filterMap Chunk.anchor? =
      (chunks.filter Chunk.isComment).filterMap Chunk.anchor? := by
    rw [List.filterMap_filter]
    refine List.filterMap_congr fun c _ => ?_
    cases c <;> rfl
  rw [hcomments, filter_outline h]
  exact filterMap_anchor?_comments root.shown

/-- If the settings shown have names that are steps of a path, and siblings have different ones,
then the anchors of the comments differ. They are the only ids on the page, unless a name, which is
written as it is, begins a tag. -/
theorem anchorsApart {root : Setting} {width : Nat} {html : String}
    (h : renderHtml width root = .ok html) (hnames : NamesApart root) :
    root.anchors.Nodup ∧
      (∃ chunks, root.outline = .ok chunks ∧ html = renderChunks .html width chunks ∧
        chunks.filterMap Chunk.anchor? = root.anchors) ∧
      ((∀ x, IsShownIn root x → '<' ∉ x.info.name.toList) → idValues html = root.anchors) := by
  obtain ⟨chunks, houtline, rfl⟩ := render_eq_ok_iff.mp h
  have hanchors := filterMap_anchor?_outline houtline
  refine ⟨hnames.nodup_anchors, ⟨chunks, houtline, rfl, hanchors⟩, fun hlt => ?_⟩
  rw [idValues_renderChunks fun n hn => ?_, hanchors]
  obtain ⟨x, hx, rfl⟩ := (mem_namesOf_outline_iff houtline).mp hn
  exact hlt x hx

/-- Settings with one name in a struct, and in an array where another one of this name is left
out. -/
def viewer : Setting :=
  .makeGroup "Prefs" .struct [
    .makeGroup "Left" .struct [.make "Zoom" .int (.int 100) "in percent"] "the pane on the left",
    (Setting.makeGroup "Right" .array [
      (Setting.make "Zoom" .int (.int 50) "unseen").asInternal,
      .make "Zoom" .int (.int 100) "in percent"] "").asExpert] ""

/-- Two settings `Zoom` of `viewer` have different anchors ; the one that is left out has
none. -/
theorem anchorsApart_viewer : NamesApart viewer ∧
    viewer.anchors = ["Left", "Left.Zoom", "Right.Zoom"] ∧
    ∃ html, renderHtml 80 viewer = .ok html ∧ viewer.anchors.Nodup ∧
      idValues html = viewer.anchors := by
  have hrender : ∃ html, renderHtml 80 viewer = .ok html := ⟨_, rfl⟩
  obtain ⟨html, hhtml⟩ := hrender
  have hnames : NamesApart viewer := by decide
  obtain ⟨hnodup, -, hids⟩ := anchorsApart hhtml hnames
  refine ⟨hnames, by decide, html, hhtml, hnodup, hids ?_⟩
  rw [forall_isShownIn_iff (P := fun x => '<' ∉ x.info.name.toList)]
  decide

/-- A setting, and one whose name is a tag with the anchor of the first as its id. -/
def forged : Setting :=
  .makeGroup "Prefs" .struct [.make "A" .bool (.bool true) "x",
    .make "<i id=\x22A\x22>" .bool (.bool true) ""] ""

/-- The names of `forged` differ, but the second one is written as a tag with the id of the
first. -/
theorem not_nodup_idValues_forged : NamesApart forged ∧ ∃ html,
    renderHtml 80 forged = .ok html ∧ ¬(idValues html).Nodup := by
  have hrender : renderHtml 80 forged = .ok ("<span class=cm id=\x22A\x22>; x</span>\n" ++
      "A = true\n" ++ "<i id=\x22A\x22> = true\n") := by decide
  exact ⟨by decide, _, hrender, by decide⟩

end Setting

end SettingsCompiler
