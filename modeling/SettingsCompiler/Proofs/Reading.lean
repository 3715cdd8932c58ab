import SettingsCompiler.Docs.Outline
import SettingsCompiler.Proofs.Layout
import Mathlib.Data.List.Nodup

/-!
# Documentation and tables

The documentation and the tables of a root describe the same settings. To compare them, the
tables are read as a tree of entries (`Header.Reads`) : a row of a composite leads to the
table that it refers to, wherever that stands in the list, and comments are passed over. The
documentation spells a tree of entries as chunks (`Docs.layoutAll`), besides the comments and
the boundaries between groups of settings, and no other tree has the same chunks
(`layoutAll_inj`).

A row whose reference is followed by name may lead astray if two tables share an identifier.
If none do, the tables can be read in one way at most (`Reads.unique`). The tree read is the
one that the documentation spells (`documentsTables`).
-/

namespace SettingsCompiler

namespace Docs

/-! ## Entries -/

/-- A setting as a reader sees it : a line, a block, or a block with one element in it. -/
inductive Entry
  | line (name value : String)
  | block (name : String) (inside : List Entry)
  | elements (name : String) (inside : List Entry)

mutual

/-- The chunks that spell an entry. -/
def Entry.layout (depth : Nat) : Entry → List Chunk
  | .line name value => [.value depth name value]
  | .block name inside =>
    .opening depth (some name) :: layoutAll (depth + 1) inside ++ [.closing depth]
  | .elements name inside =>
    .opening depth (some name) :: .opening (depth + 1) none :: layoutAll (depth + 2) inside ++
      [.closing (depth + 1), .closing depth]

/-- The chunks that spell a list of entries. -/
def layoutAll (depth : Nat) : List Entry → List Chunk
  | [] => []
  | e :: es => e.layout depth ++ layoutAll depth es

end

/-- Whether a chunk belongs to an entry ; the others are comments and boundaries. -/
def Chunk.isSpelling : Chunk → Bool
  | comment .. | boundary .. => false
  | value .. | opening .. | closing .. => true

@[simp] theorem Chunk.isSpelling_opening (depth : Nat) (name : Option String) :
    (opening depth name).isSpelling = true := rfl

@[simp] theorem Chunk.isSpelling_closing (depth : Nat) : (closing depth).isSpelling = true := rfl

/-- Chunks that no entry begins with. -/
inductive Ended : List Chunk → Prop
  | nil : Ended []
  | closing {depth : Nat} {l : List Chunk} : Ended (.closing depth :: l)

/-- Where an entry begins, the entries around it have not come to their end. -/
theorem not_ended_layout (e : Entry) {depth : Nat} {l l' : List Chunk} (hl : Ended l) :
    l ≠ e.layout depth ++ l' := by
  intro h
  cases e <;> cases hl <;> simp [Entry.layout] at h

mutual

/-- An entry is known from its chunks, whatever comes behind them. -/
theorem layout_inj : ∀ (e e' : Entry) {depth : Nat} {l l' : List Chunk},
    e.layout depth ++ l = e'.layout depth ++ l' → e = e' ∧ l = l'
  | .line name value, e', depth, l, l', h => by
    cases e' <;> simp_all [Entry.layout]
  | .block name inside, e', depth, l, l', h => by
    cases e' with
    | block name' inside' =>
      simp only [Entry.layout, List.cons_append, List.append_assoc, List.nil_append,
        List.cons.injEq, Chunk.opening.injEq, Option.some.injEq, true_and] at h
      obtain ⟨rfl, hrest⟩ := layoutAll_inj inside inside' .closing .closing h.2
      simp_all
    | elements name' inside' =>
      cases inside with
      | nil => simp [Entry.layout, layoutAll] at h
      | cons e inside => cases e <;> simp [Entry.layout, layoutAll] at h
    | line => simp [Entry.layout] at h
  | .elements name inside, e', depth, l, l', h => by
    cases e' with
    | block name' inside' =>
      cases inside' with
      | nil => simp [Entry.layout, layoutAll] at h
      | cons e inside' => cases e <;> simp [Entry.layout, layoutAll] at h
    | elements name' inside' =>
      simp only [Entry.layout, List.cons_append, List.append_assoc, List.nil_append,
        List.cons.injEq, Chunk.opening.injEq, Option.some.injEq, true_and] at h
      obtain ⟨rfl, hrest⟩ := layoutAll_inj inside inside' .closing .closing h.2
      simp_all
    | line => simp [Entry.layout] at h

/-- A list of entries is known from its chunks : no two trees are spelled alike. -/
theorem layoutAll_inj : ∀ (es es' : List Entry) {depth : Nat} {l l' : List Chunk},
    Ended l → Ended l' → layoutAll depth es ++ l = layoutAll depth es' ++ l' → es = es' ∧ l = l'
  | [], [], _, _, _, _, _, h => ⟨rfl, h⟩
  | [], e' :: es', depth, l, l', hl, _, h => by
    rw [layoutAll, layoutAll, List.nil_append, List.append_assoc] at h
    exact absurd h (not_ended_layout e' hl)
  | e :: es, [], depth, l, l', _, hl', h => by
    rw [layoutAll, layoutAll, List.nil_append, List.append_assoc] at h
    exact absurd h.symm (not_ended_layout e hl')
  | e :: es, e' :: es', depth, l, l', hl, hl', h => by
    rw [layoutAll, layoutAll, List.append_assoc, List.append_assoc] at h
    obtain ⟨rfl, hrest⟩ := layout_inj e e' h
    obtain ⟨rfl, hl⟩ := layoutAll_inj es es' hl hl' hrest
    exact ⟨rfl, hl⟩

end

end Docs

namespace Header

open Docs

/-! ## Reading tables -/

/-- The literal of a leaf read back as the text that documentation shows. -/
def Literal.shown? : Literal → Option String
  | bool b => some (if b then "true" else "false")
  | int n => some (decimal n)
  | str s => some s
  | tableRef _ => none
  | null => some ""

/-- The rows of a list read as entries, with references followed among the tables `ts`. A
compact setting is a line with the texts of the rows that its table has for members, the
empty ones left out. -/
inductive Reads (ts : List Table) : List Row → List Entry → Prop
  | nil : Reads ts [] []
  | comment {row : Row} {rows : List Row} {es : List Entry} : row.kind = .comment →
      Reads ts rows es → Reads ts (row :: rows) es
  | leaf {row : Row} {rows : List Row} {text : String} {es : List Entry} :
      row.kind ≠ .comment → row.kind.isComposite = false → row.default.shown? = some text →
      Reads ts rows es → Reads ts (row :: rows) (.line row.name text :: es)
  | compact {row : Row} {rows : List Row} {t : Table} {texts : List String} {es : List Entry} :
      row.kind = .compact → t ∈ ts → row.default = .tableRef t.name.infoIdent →
      List.Forall₂ (fun inner text => inner.default.shown? = some text)
        (t.rows.filter fun inner => inner.index?.isSome) texts →
      Reads ts rows es →
      Reads ts (row :: rows) (.line row.name (Text.joinWith " " (texts.filter (· ≠ ""))) :: es)
  | struct {row : Row} {rows : List Row} {t : Table} {inside es : List Entry} :
      row.kind = .struct → t ∈ ts → row.default = .tableRef t.name.infoIdent →
      Reads ts t.rows inside → Reads ts rows es →
      Reads ts (row :: rows) (.block row.name inside :: es)
  | array {row : Row} {rows : List Row} {t : Table} {inside es : List Entry} :
      row.kind = .array → t ∈ ts → row.default = .tableRef t.name.infoIdent →
      Reads ts t.rows inside → Reads ts rows es →
      Reads ts (row :: rows) (.elements row.name inside :: es)

/-- Tables with identifiers of their own are read in one way at most. -/
theorem Reads.unique {ts : List Table} (hnodup : (ts.map fun t => t.name.infoIdent).Nodup)
    {rows : List Row} {es : List Entry} (h : Reads ts rows es) :
    ∀ {es' : List Entry}, Reads ts rows es' → es = es' := by
  -- A reference leads to one table.
  have target : ∀ {t t' : Table} {l : Literal}, t ∈ ts → t' ∈ ts →
      l = .tableRef t.name.infoIdent → l = .tableRef t'.name.infoIdent → t = t' := by
    intro t t' l ht ht' hl hl'
    exact List.inj_on_of_nodup_map hnodup ht ht' (Literal.tableRef.inj (hl.symm.trans hl'))
  induction h with
  | nil =>
    intro es' h'
    cases h'
    rfl
  | comment hkind _ ih =>
    intro es' h'
    cases h' with
    | comment _ hrest => exact ih hrest
    | _ => simp_all
  | leaf hcom hcomp htext _ ih =>
    intro es' h'
    cases h' with
    | leaf _ _ htext' hrest =>
      obtain rfl := Option.some.inj (htext.symm.trans htext')
      rw [ih hrest]
    | _ => simp_all [Kind.isComposite]
  | compact hkind ht hl htexts _ ih =>
    intro es' h'
    cases h' with
    | compact _ ht' hl' htexts' hrest =>
      obtain rfl := target ht ht' hl hl'
      obtain rfl := List.right_unique_forall₂' (fun _ _ _ h h' => Option.some.inj (h.symm.trans h'))
        htexts htexts'
      rw [ih hrest]
    | _ => simp_all [Kind.isComposite]
  | struct hkind ht hl _ _ ihinside ih =>
    intro es' h'
    cases h' with
    | struct _ ht' hl' hinside hrest =>
      obtain rfl := target ht ht' hl hl'
      rw [ihinside hinside, ih hrest]
    | _ => simp_all [Kind.isComposite]
  | array hkind ht hl _ _ ihinside ih =>
    intro es' h'
    cases h' with
    | array _ ht' hl' hinside hrest =>
      obtain rfl := target ht ht' hl hl'
      rw [ihinside hinside, ih hrest]
    | _ => simp_all [Kind.isComposite]

end Header

namespace Setting

open Docs Header

/-! ## The outline, taken apart -/

/-- What the outline of a list begins with : nothing for a setting that is left out, and
otherwise a boundary if the group changes, the setting's comment and its body. -/
theorem listChunks_cons_ok {depth : Nat} {path : String} {expert : Bool} {c : Setting}
    {cs : List Setting} {chunks : List Chunk}
    (h : listChunks depth path expert (c :: cs) = .ok chunks) :
    (c.isDocumented = false ∧ listChunks depth path expert cs = .ok chunks) ∨
      ∃ body rest, c.isDocumented = true ∧
        bodyChunks depth (childPath path c.info.name) c = .ok body ∧
        listChunks depth path c.info.expert cs = .ok rest ∧
        chunks = (if c.info.expert = expert then [] else [.boundary c.info.expert]) ++
          commentChunks depth (childPath path c.info.name) c ++ body ++ rest := by
  rw [listChunks] at h
  split at h
  · next hdoc =>
    dsimp only at h
    split at h
    · cases h
    · next body hbody =>
      split at h
      · cases h
      · next rest hrest => exact .inr ⟨body, rest, hdoc, hbody, hrest, (Except.ok.inj h).symm⟩
  · next hdoc => exact .inl ⟨by simpa using hdoc, h⟩

/-- The outline of a root is the chunks of its list. -/
theorem listChunks_of_outline {root : Setting} {chunks : List Chunk}
    (h : root.outline = .ok chunks) : listChunks 0 "" false root.children = .ok chunks := by
  unfold outline fields at h
  cases root with
  | leaf info value => cases h
  | group info children =>
    dsimp only at h
    split_ifs at h
    exact h

theorem filter_commentChunks (depth : Nat) (path : String) (s : Setting) :
    (commentChunks depth path s).filter Chunk.isSpelling = [] := by
  unfold commentChunks
  split <;> rfl

/-! ## Rows and their texts -/

theorem isComment_of_isDocumented {c : Setting} (h : c.isDocumented = true) :
    c.isComment = false ∧ c.isListed = true := by
  rw [isDocumented, Bool.and_eq_true] at h
  refine ⟨by simpa using h.2, ?_⟩
  rw [isListed, h.1, Bool.or_true]

/-- A plain default of a fitting kind reads back as it is shown. -/
theorem shown?_of_ofValue? {kind : Kind} {value : Value} {l : Literal}
    (h : Literal.ofValue? kind value = some l) : l.shown? = some value.shown := by
  cases kind <;> cases value <;> simp_all [Literal.ofValue?, Kind.isTextual] <;> subst h <;> rfl

/-- The literal of a setting whose default is shown reads back as what is shown. -/
theorem shown?_of_encode {c : Setting} {table : Option String} {l : Literal} {text : String}
    (hcom : c.isComment = false) (hl : c.encode table = .ok l) (htext : c.defaultText = .ok text) :
    l.shown? = some text := by
  cases c with
  | group info children => cases htext
  | leaf info value =>
    obtain rfl := Except.ok.inj htext
    rw [encode.eq_def, hcom, if_neg (by simp)] at hl
    split at hl
    · cases hl
    · cases hvalue : Literal.ofValue? info.kind value with
      | none => simp [hvalue] at hl
      | some l' =>
        obtain rfl : l' = l := by simpa [hvalue] using hl
        exact shown?_of_ofValue? hvalue

/-- The rows at a place, with positions `slotAt` and the names that `names` gives to the tables
of the settings there. -/
abbrev ShowsAt (names : List Nat → String → TableName) (path : List Nat) (slotAt : Nat → Nat)
    (e : Setting × Nat) (row : Row) : Prop :=
  Shows (slotAt e.2) (names (path ++ [e.2]) e.1.info.structName) e.1 row

/-- The first setting of a list that has rows : it has none, or that of a comment, or one
with a position. -/
theorem forall₂_listed_cons {R : Setting × Nat → Row → Prop} {c : Setting} {cs : List Setting}
    {i : Nat} {rows : List Row} (h : List.Forall₂ R (listed i (c :: cs)) rows) :
    (c.isDocumented = false ∧ List.Forall₂ R (listed (i + 1) cs) rows) ∨
      ∃ row rest, rows = row :: rest ∧ R (c, i) row ∧ c.isDocumented = !c.isComment ∧
        List.Forall₂ R (listed (i + 1) cs) rest := by
  rw [listed_cons] at h
  split at h
  · next hlisted =>
    rw [List.singleton_append, List.forall₂_cons_left_iff] at h
    obtain ⟨row, rest, hrow, hrest, rfl⟩ := h
    refine .inr ⟨row, rest, rfl, hrow, ?_, hrest⟩
    cases hcom : c.isComment <;> simp_all [isListed, isDocumented]
  · next hlisted =>
    refine .inl ⟨?_, h⟩
    cases hdoc : c.isDocumented
    · rfl
    · exact absurd (isComment_of_isDocumented hdoc).2 hlisted

/-- The texts on a compact line are those of the rows with a position, the empty ones left
out. -/
theorem exists_texts {names : List Nat → String → TableName} {path : List Nat}
    {slotAt : Nat → Nat} :
    ∀ {cs : List Setting} {i : Nat} {rows : List Row} {shown : List String},
      List.Forall₂ (ShowsAt names path slotAt) (listed i cs) rows →
      shownDefaults cs = .ok shown →
      ∃ texts, shown = texts.filter (· ≠ "") ∧
        List.Forall₂ (fun row text => row.default.shown? = some text)
          (rows.filter fun row => row.index?.isSome) texts
  | [], i, rows, shown, hrows, h => by
    obtain rfl : rows = [] := by simpa [listed] using hrows
    obtain rfl := Except.ok.inj h
    exact ⟨[], rfl, .nil⟩
  | c :: cs, i, rows, shown, hrows, h => by
    rw [shownDefaults] at h
    rcases forall₂_listed_cons hrows with ⟨hdoc, hrest⟩ | ⟨row, rest, rfl, hrow, hdoc, hrest⟩
    · rw [hdoc, if_neg (by simp)] at h
      exact exists_texts hrest h
    · have hindex := hrow.index?
      cases hcom : c.isComment with
      | true =>
        rw [hdoc, hcom, if_neg (by simp)] at h
        rw [List.filter_cons, hindex, hcom]
        exact exists_texts hrest h
      | false =>
        rw [hdoc, hcom, if_pos (by simp)] at h
        split at h
        · cases h
        · next text htext =>
          split at h
          · cases h
          · next more hmore =>
            obtain ⟨texts, rfl, htexts⟩ := exists_texts hrest hmore
            refine ⟨text :: texts, ?_, ?_⟩
            · rw [← Except.ok.inj h, List.filter_cons]
              by_cases hempty : text = "" <;> simp [hempty]
            · rw [List.filter_cons, hindex, hcom]
              exact .cons (shown?_of_encode hcom hrow.default htext) htexts

/-! ## Entries of settings -/

section

variable {root : Setting} {ts : List Table} {names : List Nat → String → TableName}

/-- Every visible composite has its table in the list. -/
abbrev AllDescribed (root : Setting) (ts : List Table)
    (names : List Nat → String → TableName) : Prop :=
  ∀ path x, Visible root path x → ∃ t ∈ ts, Describes names ⟨path, x⟩ t

/-- The row of a documented setting reads as an entry that its part of the outline spells. -/
abbrev Documents (ts : List Table) (depth : Nat) (body : List Chunk) (row : Row) : Prop :=
  ∃ e : Entry, body.filter Chunk.isSpelling = e.layout depth ∧
    ∀ {rows : List Row} {es : List Entry}, Reads ts rows es → Reads ts (row :: rows) (e :: es)

/-- The table that the row of a visible composite refers to. -/
theorem exists_target (hall : AllDescribed root ts names) {c : Setting} {here : List Nat}
    {k : Nat} {row : Row} (hvis : Visible root here c) (ht : c.isTabled = true)
    (hrow : Shows k (names here c.info.structName) c row) :
    ∃ t ∈ ts, row.default = .tableRef t.name.infoIdent ∧
      List.Forall₂ (ShowsAt names here (slot c.children)) (listed 0 c.children) t.rows := by
  obtain ⟨t, hmem, hdesc⟩ := hall _ _ hvis
  refine ⟨t, hmem, ?_, hdesc.rows⟩
  rw [encode_of_isTabled ht hrow.default, hdesc.name]
  rfl

/-- The row of a leaf reads as the line that documents it. -/
theorem documents_leaf {info : Info} {value : Value} {depth k : Nat} {path : String}
    {table : TableName} {row : Row} {body : List Chunk}
    (hdoc : (leaf info value).isDocumented = true) (hrow : Shows k table (leaf info value) row)
    (h : bodyChunks depth path (leaf info value) = .ok body) : Documents ts depth body row := by
  obtain ⟨hcom, -⟩ := isComment_of_isDocumented hdoc
  have hkind : info.kind ≠ .comment := by simpa [isComment] using hcom
  have hname : row.name = info.name := by rw [hrow.name, hcom]; rfl
  have htext : row.default.shown? = some value.shown := shown?_of_encode hcom hrow.default rfl
  have hplain : info.kind.isComposite = false ∧ body = [.value depth info.name value.shown] := by
    rw [bodyChunks] at h
    cases hk : info.kind <;> simp_all [Kind.isComposite]
  refine ⟨.line row.name value.shown, ?_, .leaf ?_ ?_ htext⟩
  · rw [hplain.2, hname]
    rfl
  · rw [hrow.kind]
    exact hkind
  · rw [hrow.kind]
    exact hplain.1

mutual

/-- The row of a documented setting reads as the entry that its part of the outline spells, by
induction on the tree. -/
theorem documents (hall : AllDescribed root ts names) :
    ∀ (c : Setting) {here : List Nat} {depth k : Nat} {path : String} {row : Row}
      {body : List Chunk}, (c.isTabled = true → Visible root here c) → c.isDocumented = true →
      Shows k (names here c.info.structName) c row → bodyChunks depth path c = .ok body →
      Documents ts depth body row
  | leaf info value, _, _, _, _, _, _, _, hdoc, hrow, h => documents_leaf hdoc hrow h
  | group info children, here, depth, k, path, row, body, hvis, hdoc, hrow, h => by
    obtain ⟨hcom, -⟩ := isComment_of_isDocumented hdoc
    have hname : row.name = info.name := by rw [hrow.name, hcom]; rfl
    have hkind : row.kind = info.kind := hrow.kind
    have target (hcomp : info.kind.isComposite = true) :
        ∃ t ∈ ts, row.default = .tableRef t.name.infoIdent ∧
          List.Forall₂ (ShowsAt names here (slot children)) (listed 0 children) t.rows ∧
          ∀ j c, children[j]? = some c → c.isTabled = true → Visible root (here ++ [0 + j]) c := by
      have ht : (group info children).isTabled = true := by
        rw [isDocumented, Bool.and_eq_true] at hdoc
        rw [isTabled, hdoc.1, info_group, hcomp]
        rfl
      obtain ⟨t, hmem, href, hrows⟩ := exists_target hall (hvis ht) ht hrow
      refine ⟨t, hmem, href, hrows, fun j c hc htab => ?_⟩
      rw [Nat.zero_add]
      exact (hvis ht).child hc htab
    have inside (hcomp : info.kind.isComposite = true) {depth : Nat} {inner : List Chunk}
        (hinner : listChunks depth path false children = .ok inner) :
        ∃ t ∈ ts, row.default = .tableRef t.name.infoIdent ∧
          ∃ es, inner.filter Chunk.isSpelling = layoutAll depth es ∧ Reads ts t.rows es := by
      obtain ⟨t, hmem, href, hrows, hvisible⟩ := target hcomp
      exact ⟨t, hmem, href, documentsAll hall children hvisible hrows hinner⟩
    rw [bodyChunks] at h
    split at h
    · next hstruct =>
      split at h
      · cases h
      · next inner hinner =>
        obtain ⟨t, hmem, href, es, hes, hreads⟩ := inside (by rw [hstruct]; rfl) hinner
        refine ⟨.block row.name es, ?_, .struct (hkind.trans hstruct) hmem href hreads⟩
        rw [← Except.ok.inj h, hname, Entry.layout, ← hes]
        simp [List.filter_cons]
    · next harray =>
      split at h
      · cases h
      · next inner hinner =>
        obtain ⟨t, hmem, href, es, hes, hreads⟩ := inside (by rw [harray]; rfl) hinner
        refine ⟨.elements row.name es, ?_, .array (hkind.trans harray) hmem href hreads⟩
        rw [← Except.ok.inj h, hname, Entry.layout, ← hes]
        simp [List.filter_cons]
    · next hcompact =>
      obtain ⟨t, hmem, href, hrows, -⟩ := target (by rw [hcompact]; rfl)
      cases hshown : shownDefaults children with
      | error e => simp [compactText, fields, hcompact, Kind.isComposite, hshown, Except.map] at h
      | ok shown =>
        obtain ⟨texts, rfl, htexts⟩ := exists_texts hrows hshown
        refine ⟨.line row.name (Text.joinWith " " (texts.filter (· ≠ ""))), ?_,
          .compact (hkind.trans hcompact) hmem href htexts⟩
        simp only [compactText, fields, hcompact, Kind.isComposite, hshown, Except.map,
          if_true, Except.ok.injEq] at h
        rw [← h, hname]
        rfl
    · next hcomment =>
      rw [isComment, info_group, hcomment] at hcom
      cases hcom
    · cases h

/-- The rows of a list read as the entries that its part of the outline spells. -/
theorem documentsAll (hall : AllDescribed root ts names) :
    ∀ (cs : List Setting) {here : List Nat} {i depth : Nat} {path : String} {expert : Bool}
      {slotAt : Nat → Nat} {rows : List Row} {chunks : List Chunk},
      (∀ j c, cs[j]? = some c → c.isTabled = true → Visible root (here ++ [i + j]) c) →
      List.Forall₂ (ShowsAt names here slotAt) (listed i cs) rows →
      listChunks depth path expert cs = .ok chunks →
      ∃ es, chunks.filter Chunk.isSpelling = layoutAll depth es ∧ Reads ts rows es
  | [], here, i, depth, path, expert, slotAt, rows, chunks, _, hrows, h => by
    obtain rfl : rows = [] := by simpa [listed] using hrows
    refine ⟨[], ?_, .nil⟩
    rw [← Except.ok.inj h]
    cases expert <;> rfl
  | c :: cs, here, i, depth, path, expert, slotAt, rows, chunks, hvis, hrows, h => by
    have hvis' (j : Nat) (d : Setting) (hd : cs[j]? = some d) (ht : d.isTabled = true) :
        Visible root (here ++ [i + 1 + j]) d := by
      rw [Nat.add_assoc, Nat.add_comm 1 j]
      exact hvis (j + 1) d hd ht
    rcases listChunks_cons_ok h with ⟨hdoc, hrest⟩ | ⟨body, more, hdoc, hbody, hrest, rfl⟩
    · rcases forall₂_listed_cons hrows with ⟨-, hrows'⟩ | ⟨row, rows', rfl, hrow, hcom, hrows'⟩
      · exact documentsAll hall cs hvis' hrows' hrest
      · obtain ⟨es, hes, hreads⟩ := documentsAll hall cs hvis' hrows' hrest
        refine ⟨es, hes, .comment ?_ hreads⟩
        rw [hdoc, eq_comm, Bool.not_eq_false', isComment, beq_iff_eq] at hcom
        exact hrow.kind.trans hcom
    · rcases forall₂_listed_cons hrows with ⟨hdoc', -⟩ | ⟨row, rows', rfl, hrow, -, hrows'⟩
      · rw [hdoc] at hdoc'
        cases hdoc'
      · obtain ⟨e, he, hcons⟩ := documents hall c (fun ht => hvis 0 c rfl ht) hdoc hrow hbody
        obtain ⟨es, hes, hreads⟩ := documentsAll hall cs hvis' hrows' hrest
        refine ⟨e :: es, ?_, hcons hreads⟩
        have hboundary : (if c.info.expert = expert then []
            else [Chunk.boundary c.info.expert]).filter Chunk.isSpelling = [] := by
          split <;> rfl
        rw [List.filter_append, List.filter_append, List.filter_append, hboundary,
          filter_commentChunks, he, hes]
        rfl

end

end

/-! ## The documentation of a root -/

/-- The tables of a root describe all its visible composites. -/
theorem allDescribed_of_tables {r r' : Registry} {root : Setting} {ts : List Table}
    (h : root.tables.runFrom r = (.ok ts, r')) :
    AllDescribed root ts (numbered r root.preorder) := by
  intro path x hvis
  obtain ⟨k, hk, hget⟩ := List.getElem_of_mem (mem_postorder_iff.mpr hvis)
  have hdesc := describes_of_tables h
  have hk' : k < ts.length := hdesc.length_eq ▸ hk
  refine ⟨ts[k], List.getElem_mem hk', ?_⟩
  have := hdesc.get hk hk'
  simp only [List.get_eq_getElem, hget] at this
  exact this

/-- The tables of a root, read from the last of them, its own, are the entries that its
outline spells, and no others. -/
structure DocumentsTables (root : Setting) (ts : List Table) (chunks : List Chunk) (t : Table)
    (es : List Entry) : Prop where
  last : ts.getLast? = some t
  structName : t.structName = root.info.structName
  reads : ∀ es', Reads ts t.rows es' ↔ es' = es
  spells : ∀ es', chunks.filter Chunk.isSpelling = layoutAll 0 es' ↔ es' = es

/-- Where no two tables share an identifier, a reader who follows the references through the
tables finds the settings that the documentation shows, and finds them in one way. -/
theorem documentsTables {root : Setting} {r r' : Registry} {ts : List Table}
    {chunks : List Chunk} (ht : root.tables.runFrom r = (.ok ts, r'))
    (hd : root.outline = .ok chunks) (hnodup : (ts.map fun t => t.name.infoIdent).Nodup) :
    ∃ t es, DocumentsTables root ts chunks t es := by
  obtain ⟨t, hlast, hdesc⟩ := describes_last ht
  obtain ⟨es, hes, hreads⟩ := documentsAll (allDescribed_of_tables ht) root.children
    (fun j c hc htab => Visible.root.child (by simpa using hc) htab) hdesc.rows
    (listChunks_of_outline hd)
  refine ⟨t, es, hlast, hdesc.structName, fun es' => ⟨fun h => h.unique hnodup hreads, ?_⟩, fun es' => ?_⟩
  · rintro rfl
    exact hreads
  · rw [hes, eq_comm]
    refine ⟨fun h => (layoutAll_inj es' es .nil .nil (congrArg (· ++ []) h)).1, ?_⟩
    rintro rfl
    rfl

/-- Two structs of one name, an array, a compact setting with an unset member, and settings
that documentation leaves out. -/
def book : Setting :=
  .makeGroup "Prefs" .struct [.make "" .comment .null "Pages",
    .makeGroup "Page" .struct [.makeGroup "Margin" .compact [.make "Top" .int (.int 2) "",
      .make "Unit" .string .null "", .make "Left" .int (.int 4) ""] ""] "",
    (Setting.make "Cache" .int (.int 1) "").asInternal,
    .makeGroup "Pages" .array [.make "Open" .bool (.bool true) ""] ""] ""

/-- The settings of `book` as a reader sees them. -/
def bookEntries : List Entry :=
  [.block "Page" [.line "Margin" "2 4"], .elements "Pages" [.line "Open" "true"]]

/-- The two structs of one name in `book` have tables of their own, and each row leads to the
right one. -/
theorem documentsTables_book :
    ∃ ts r' chunks, book.tables.runFrom .empty = (.ok ts, r') ∧ book.outline = .ok chunks ∧
      chunks.filter Chunk.isSpelling = layoutAll 0 bookEntries ∧
      ∃ t es, DocumentsTables book ts chunks t es := by
  have htables : book.tables.runFrom .empty = (.ok _, _) := rfl
  have houtline : book.outline = .ok _ := rfl
  exact ⟨_, _, _, htables, houtline, by decide, documentsTables htables houtline (by decide)⟩

end Setting
end SettingsCompiler
