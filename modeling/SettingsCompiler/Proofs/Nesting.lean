import SettingsCompiler.Proofs.Provenance

/-!
# Blocks and groups of a page

The chunks of an outline open and close two kinds of enclosures : blocks, and groups of settings
for experts. Read from the front with the enclosures that are open in hand (`nest`), every chunk
that closes one finds it innermost, and none is left open at the end. So a group that was opened
in a block is closed in it.

Each setting that documentation shows (`shown`) has one chunk with its name, in document order.
What is open around it is known from the tree alone (`Placed.enclosures`) : the blocks of the
settings it is inside of, each in the group that this setting may be in, and innermost the group
of its own list, which is open iff the setting is for experts. Its line is indented by two spaces
for every block around it (`nestsWell`).

The invariant of the walk over a list is that in front of a setting the list's own group is open
iff the setting before was one for experts (`spans_listChunks`).
-/

namespace SettingsCompiler

namespace Docs

/-! ## Enclosures -/

/-- What chunks stand in : a block with its name, the nameless block of one element of an array,
or a group of settings for experts. -/
inductive Enclosure
  | block (name : Option String)
  | group
deriving DecidableEq, Repr

/-- The enclosures open behind a chunk, the innermost first, if `around` are open in front of it ;
nothing if the chunk closes one that is not the innermost. -/
def Chunk.enclose (around : List Enclosure) : Chunk → Option (List Enclosure)
  | comment .. | value .. => some around
  | opening _ name => some (.block name :: around)
  | boundary true => some (.group :: around)
  | closing _ =>
    match around with
    | .block _ :: around => some around
    | _ => none
  | boundary false =>
    match around with
    | .group :: around => some around
    | _ => none

/-- The enclosures left open by a list of chunks, and each chunk with those open in front of it ;
nothing if some chunk closes one that is not the innermost. -/
def nest (around : List Enclosure) :
    List Chunk → Option (List Enclosure × List (Chunk × List Enclosure))
  | [] => some (around, [])
  | c :: cs =>
    match c.enclose around with
    | none => none
    | some inner => (nest inner cs).map fun (left, places) => (left, (c, around) :: places)

theorem nest_cons {around inner left : List Enclosure} {c : Chunk} {cs : List Chunk}
    {places : List (Chunk × List Enclosure)} (hc : c.enclose around = some inner)
    (hcs : nest inner cs = some (left, places)) :
    nest around (c :: cs) = some (left, (c, around) :: places) := by
  rw [nest, hc]
  dsimp only
  rw [hcs]
  rfl

/-- Chunks behind others start from the enclosures that these leave open. -/
theorem nest_append {inner left : List Enclosure} {cs' : List Chunk}
    {places' : List (Chunk × List Enclosure)} (h' : nest inner cs' = some (left, places')) :
    ∀ {cs : List Chunk} {around : List Enclosure} {places : List (Chunk × List Enclosure)},
      nest around cs = some (inner, places) →
      nest around (cs ++ cs') = some (left, places ++ places')
  | [], around, places, h => by
    obtain ⟨rfl, rfl⟩ := Prod.mk.inj (Option.some.inj h)
    exact h'
  | c :: cs, around, places, h => by
    rw [nest] at h
    split at h
    · cases h
    · next behind hc =>
      obtain ⟨⟨left', rest⟩, hrest, heq⟩ := Option.map_eq_some_iff.mp h
      obtain ⟨rfl, rfl⟩ := Prod.mk.inj heq
      exact nest_cons hc (nest_append h' hrest)

/-- How many of the enclosures are blocks. -/
def blockCount (around : List Enclosure) : Nat :=
  around.countP (· ≠ .group)

@[simp] theorem blockCount_nil : blockCount [] = 0 := rfl

@[simp] theorem blockCount_block (name : Option String) (around : List Enclosure) :
    blockCount (.block name :: around) = blockCount around + 1 := by
  simp [blockCount]

@[simp] theorem blockCount_group (around : List Enclosure) :
    blockCount (.group :: around) = blockCount around := by
  simp [blockCount]

/-- The group of a list of settings, as it is open around a setting for experts. -/
def groups (expert : Bool) : List Enclosure :=
  if expert then [.group] else []

theorem blockCount_groups (expert : Bool) (around : List Enclosure) :
    blockCount (groups expert ++ around) = blockCount around := by
  cases expert <;> simp [groups]

end Docs

namespace Setting

open Docs

/-! ## Settings shown -/

/-- Whether documentation shows the setting as a block with those inside it. -/
def isBlock (s : Setting) : Bool :=
  s.info.kind = .struct || s.info.kind = .array

/-- A setting that documentation shows, and the settings it is inside of, the innermost first. -/
structure Placed where
  setting : Setting
  around : List Setting

mutual

/-- The setting and those shown inside it, in document order. -/
def shownFrom (around : List Setting) : Setting → List Placed
  | leaf info value => [⟨leaf info value, around⟩]
  | group info children =>
    ⟨group info children, around⟩ ::
      if (group info children).isBlock then shownAllFrom (group info children :: around) children
      else []

/-- The settings shown of a list and inside it, in document order. -/
def shownAllFrom (around : List Setting) : List Setting → List Placed
  | [] => []
  | c :: cs => (if c.isDocumented then c.shownFrom around else []) ++ shownAllFrom around cs

end

/-- The settings that the documentation of a root shows, in document order. -/
def shown (root : Setting) : List Placed :=
  shownAllFrom [] root.children

theorem isBlock_iff {s : Setting} :
    s.isBlock = true ↔ s.info.kind = .struct ∨ s.info.kind = .array := by
  simp [isBlock]

mutual

/-- The settings around one that is shown are blocks. -/
theorem isBlock_of_mem_shownFrom : ∀ {s : Setting} {around : List Setting} {p : Placed},
    (∀ a ∈ around, a.isBlock = true) → p ∈ s.shownFrom around → ∀ a ∈ p.around, a.isBlock = true
  | leaf info value, around, p, h, hp => by
    obtain rfl := List.mem_singleton.mp hp
    exact h
  | group info cs, around, p, h, hp => by
    rw [shownFrom] at hp
    rcases List.mem_cons.mp hp with rfl | hp
    · exact h
    · split at hp
      · next hblock =>
        exact isBlock_of_mem_shownAllFrom (List.forall_mem_cons.mpr ⟨hblock, h⟩) hp
      · cases hp

theorem isBlock_of_mem_shownAllFrom : ∀ {cs : List Setting} {around : List Setting} {p : Placed},
    (∀ a ∈ around, a.isBlock = true) → p ∈ shownAllFrom around cs →
    ∀ a ∈ p.around, a.isBlock = true
  | [], around, p, h, hp => by cases hp
  | c :: cs, around, p, h, hp => by
    rw [shownAllFrom] at hp
    rcases List.mem_append.mp hp with hp | hp
    · split at hp
      · exact isBlock_of_mem_shownFrom h hp
      · cases hp
    · exact isBlock_of_mem_shownAllFrom h hp

end

mutual

/-- The settings listed are those that the setting displays, itself among them. -/
theorem mem_shownFrom_iff {x : Setting} : ∀ {s : Setting} {around : List Setting},
    (∃ p ∈ s.shownFrom around, p.setting = x) ↔ s.Displays x
  | leaf info value, around => by
    constructor
    · rintro ⟨p, hp, rfl⟩
      obtain rfl := List.mem_singleton.mp hp
      exact .self
    · intro h
      cases h
      exact ⟨_, List.mem_cons_self, rfl⟩
  | group info cs, around => by
    rw [shownFrom, List.exists_mem_cons_iff]
    constructor
    · rintro (rfl | ⟨p, hp, rfl⟩)
      · exact .self
      · split at hp
        · next hblock =>
          obtain ⟨c, hc, hdoc, hx⟩ := mem_shownAllFrom_iff.mp ⟨p, hp, rfl⟩
          exact .inside (isBlock_iff.mp hblock) hc hdoc hx
        · cases hp
    · intro h
      cases h with
      | self => exact .inl rfl
      | inside hkind hc hdoc hx =>
        have hblock : (group info cs).isBlock = true := isBlock_iff.mpr hkind
        rw [if_pos hblock]
        exact .inr (mem_shownAllFrom_iff.mpr ⟨_, hc, hdoc, hx⟩)

/-- The settings listed of a list are those that its documented settings display. -/
theorem mem_shownAllFrom_iff {x : Setting} : ∀ {cs : List Setting} {around : List Setting},
    (∃ p ∈ shownAllFrom around cs, p.setting = x) ↔
      ∃ c ∈ cs, c.isDocumented = true ∧ c.Displays x
  | [], around => by simp [shownAllFrom]
  | c :: cs, around => by
    have hfirst : (∃ p ∈ if c.isDocumented then c.shownFrom around else [], p.setting = x) ↔
        c.isDocumented = true ∧ c.Displays x := by
      cases hdoc : c.isDocumented with
      | false => simp
      | true =>
        have hc : (∃ p ∈ c.shownFrom around, p.setting = x) ↔ c.Displays x := mem_shownFrom_iff
        simpa using hc
    have hrest : (∃ p ∈ shownAllFrom around cs, p.setting = x) ↔
        ∃ c ∈ cs, c.isDocumented = true ∧ c.Displays x := mem_shownAllFrom_iff
    rw [List.exists_mem_cons_iff, ← hfirst, ← hrest, shownAllFrom]
    simp only [List.mem_append, or_and_right, exists_or]

end

/-- The blocks that the setting is written as, the inner one first : one for a struct, and for an
array another one around its element. -/
def blocks (s : Setting) : List Enclosure :=
  match s.info.kind with
  | .struct => [.block (some s.info.name)]
  | .array => [.block none, .block (some s.info.name)]
  | _ => []

/-- The enclosures around the list of the innermost of nested settings. -/
def enclosing : List Setting → List Enclosure
  | [] => []
  | a :: around => a.blocks ++ (groups a.info.expert ++ enclosing around)

/-- The enclosures around a setting that is shown. In the list around it a group is open iff the
setting is for experts. -/
def Placed.enclosures (p : Placed) : List Enclosure :=
  groups p.setting.info.expert ++ enclosing p.around

/-- How many levels of indentation the settings inside a setting have on top of its own. -/
def levels (s : Setting) : Nat :=
  if s.info.kind = .array then 2 else 1

/-- How many levels of indentation there are inside nested settings. -/
def levelsIn : List Setting → Nat
  | [] => 0
  | a :: around => a.levels + levelsIn around

theorem blockCount_blocks {s : Setting} (h : s.isBlock = true) (around : List Enclosure) :
    blockCount (s.blocks ++ around) = s.levels + blockCount around := by
  rw [blocks, levels]
  rcases isBlock_iff.mp h with hkind | hkind
  · simp [hkind, Nat.add_comm]
  · simp [hkind]
    omega

/-- Every struct around a setting is one block, and every array two. -/
theorem blockCount_enclosing : ∀ {around : List Setting}, (∀ a ∈ around, a.isBlock = true) →
    blockCount (enclosing around) = levelsIn around
  | [], _ => rfl
  | a :: around, h => by
    obtain ⟨ha, haround⟩ := List.forall_mem_cons.mp h
    rw [enclosing, blockCount_blocks ha, blockCount_groups, blockCount_enclosing haround, levelsIn]

/-- Innermost around the list inside a block is the block. -/
theorem head?_enclosing {around : List Setting} (h : ∀ a ∈ around, a.isBlock = true) :
    (enclosing around).head? ≠ some .group := by
  cases around with
  | nil => simp [enclosing]
  | cons a around =>
    rcases isBlock_iff.mp (h a List.mem_cons_self) with hkind | hkind
    · simp [enclosing, blocks, hkind]
    · simp [enclosing, blocks, hkind]

/-- Innermost around a setting is a group iff the setting is for experts. -/
theorem Placed.head?_enclosures {p : Placed} (h : ∀ a ∈ p.around, a.isBlock = true) :
    p.enclosures.head? = some .group ↔ p.setting.info.expert = true := by
  have hlist := head?_enclosing h
  rw [Placed.enclosures]
  cases p.setting.info.expert <;> simp [groups, hlist]

/-! ## Chunks of settings -/

/-- The chunk is the setting's own : the start of its block, or its line. -/
inductive IsOwnChunk (s : Setting) (depth : Nat) : Chunk → Prop
  | block : s.isBlock = true → IsOwnChunk s depth (.opening depth (some s.info.name))
  | line {text : String} : s.isBlock = false → IsOwnChunk s depth (.value depth s.info.name text)

theorem IsOwnChunk.name? {s : Setting} {depth : Nat} {c : Chunk} (h : IsOwnChunk s depth c) :
    c.name? = some s.info.name := by
  cases h <;> rfl

/-- The text of a setting's own chunk begins with its indentation and its name. -/
theorem IsOwnChunk.render {s : Setting} {depth : Nat} {c : Chunk} (h : IsOwnChunk s depth c)
    (style : Style) (width : Nat) :
    ∃ rest, c.render style width = indent depth ++ s.info.name ++ rest := by
  cases h with
  | block => exact ⟨" [\n", rfl⟩
  | @line text _ =>
    have hsign (pre : List Char) : Text.trimEnd (pre ++ " =".toList) = pre ++ " =".toList := by
      have hconcat : pre ++ " =".toList = (pre ++ [' ']) ++ ['='] := by simp
      rw [hconcat, Text.trimEnd_concat_of_not_isBlank rfl]
    have htrim (pre rest : List Char) : ∃ rest',
        Text.trimEnd (pre ++ " =".toList ++ rest) = pre ++ " =".toList ++ rest' := by
      rw [Text.trimEnd_append, hsign]
      split
      · exact ⟨[], (List.append_nil _).symm⟩
      · exact ⟨_, rfl⟩
    obtain ⟨rest, hrest⟩ := htrim (indent depth ++ s.info.name).toList
      (" " ++ style.value text).toList
    refine ⟨String.ofList (" =".toList ++ rest ++ ['\n']), String.toList_injective ?_⟩
    have hline : (indent depth ++ s.info.name ++ " = " ++ style.value text).toList =
        (indent depth ++ s.info.name).toList ++ " =".toList ++
          (" " ++ style.value text).toList := by
      have hequals : " = ".toList = " =".toList ++ " ".toList := by simp
      simp only [String.toList_append, hequals, List.append_assoc]
    rw [Chunk.render, trimmedLine, hline, hrest]
    simp

/-- The chunk is the own chunk of the setting, stands in the enclosures known from the tree, and
has one level of indentation for each block among them. -/
structure Stands (p : Placed) (place : Chunk × List Enclosure) : Prop where
  own : IsOwnChunk p.setting (blockCount place.2) place.1
  enclosures : place.2 = p.enclosures

/-- The chunks lead from open enclosures to others, and those with a name stand for the
settings. -/
def Spans (around : List Enclosure) (chunks : List Chunk) (left : List Enclosure)
    (ps : List Placed) : Prop :=
  ∃ places, nest around chunks = some (left, places) ∧
    List.Forall₂ Stands ps (places.filter fun e => e.1.name?.isSome)

namespace Spans

variable {around inner left : List Enclosure} {chunks chunks' : List Chunk} {ps ps' : List Placed}

theorem nil : Spans around [] around [] :=
  ⟨[], rfl, .nil⟩

/-- What two lists of chunks stand for, one list behind the other. -/
theorem append (h : Spans around chunks inner ps) (h' : Spans inner chunks' left ps') :
    Spans around (chunks ++ chunks') left (ps ++ ps') := by
  obtain ⟨places, hnest, hstands⟩ := h
  obtain ⟨places', hnest', hstands'⟩ := h'
  refine ⟨places ++ places', nest_append hnest' hnest, ?_⟩
  rw [List.filter_append]
  exact List.rel_append hstands hstands'

/-- A chunk without a name stands for no setting. -/
theorem nameless {c : Chunk} (hname : c.name? = none) (hc : c.enclose around = some inner) :
    Spans around [c] inner [] := by
  refine ⟨[(c, around)], nest_cons hc rfl, ?_⟩
  rw [List.filter_cons, hname]
  exact .nil

/-- A setting's own chunk stands for the setting. -/
theorem named {c : Chunk} {p : Placed} (hown : IsOwnChunk p.setting (blockCount p.enclosures) c)
    (hc : c.enclose p.enclosures = some inner) : Spans p.enclosures [c] inner [p] := by
  refine ⟨[(c, p.enclosures)], nest_cons hc rfl, ?_⟩
  rw [List.filter_cons, hown.name?]
  exact .cons ⟨hown, rfl⟩ .nil

/-- What the start of a block stands for, in front of what the chunks inside it stand for. -/
theorem enclosed {depth : Nat} {name : Option String}
    (hopen : Spans around [.opening depth name] (.block name :: around) ps)
    (h : Spans (.block name :: around) chunks (.block name :: around) ps') :
    Spans around (.opening depth name :: (chunks ++ [.closing depth])) around (ps ++ ps') := by
  have hclose : Spans (.block name :: around) [.closing depth] around [] := .nameless rfl rfl
  simpa using hopen.append (h.append hclose)

end Spans

theorem spans_commentChunks (around : List Enclosure) (depth : Nat) (path : String) (s : Setting) :
    Spans around (commentChunks depth path s) around [] := by
  unfold commentChunks
  split
  · exact .nil
  · exact .nameless rfl rfl

/-- Between two settings of a list the group of the list begins or ends if they differ. -/
theorem spans_boundary (around : List Enclosure) (before after : Bool) :
    Spans (groups before ++ around) (if after = before then [] else [.boundary after])
      (groups after ++ around) [] := by
  cases before <;> cases after
  · exact .nil
  · exact .nameless rfl rfl
  · exact .nameless rfl rfl
  · exact .nil

/-- The chunks of a block, around those of the list inside it. -/
def blockChunks (s : Setting) (depth : Nat) (inner : List Chunk) : List Chunk :=
  if s.info.kind = .array then
    .opening depth (some s.info.name) ::
      (.opening (depth + 1) none :: (inner ++ [.closing (depth + 1)]) ++ [.closing depth])
  else .opening depth (some s.info.name) :: (inner ++ [.closing depth])

/-- The chunks of a block are those of its list, one or two levels further in, between its start
and its end. -/
theorem bodyChunks_of_isBlock {info : Info} {cs : List Setting}
    (h : (group info cs).isBlock = true) (depth : Nat) (path : String) :
    bodyChunks depth path (group info cs) =
      (listChunks (depth + (group info cs).levels) path false cs).map
        ((group info cs).blockChunks depth) := by
  have hkinds : info.kind = .struct ∨ info.kind = .array := isBlock_iff.mp h
  rcases hkinds with hkind | hkind
  · have hlevels : (group info cs).levels = 1 := by simp [levels, hkind]
    rw [bodyChunks, hkind, hlevels]
    cases listChunks (depth + 1) path false cs with
    | error e => rfl
    | ok inner => simp [blockChunks, hkind, Except.map]
  · have hlevels : (group info cs).levels = 2 := by simp [levels, hkind]
    rw [bodyChunks, hkind, hlevels]
    cases listChunks (depth + 2) path false cs with
    | error e => rfl
    | ok inner => simp [blockChunks, hkind, Except.map]

/-- A setting that is no block is one line. -/
theorem eq_value_of_bodyChunks {s : Setting} {depth : Nat} {path : String} {body : List Chunk}
    (hdoc : s.isDocumented = true) (hblock : s.isBlock = false)
    (h : bodyChunks depth path s = .ok body) : ∃ text, body = [.value depth s.info.name text] := by
  have hcom := (isComment_of_isDocumented hdoc).1
  cases s with
  | leaf info value =>
    refine ⟨value.shown, ?_⟩
    rw [bodyChunks] at h
    cases hkind : info.kind <;> simp_all [isBlock, isComment]
  | group info cs =>
    rw [bodyChunks] at h
    split at h
    · next hkind => simp [isBlock, hkind] at hblock
    · next hkind => simp [isBlock, hkind] at hblock
    · split at h
      · cases h
      · next text _ => exact ⟨text, (Except.ok.inj h).symm⟩
    · next hkind => simp [isComment, hkind] at hcom
    · cases h

/-- A block stands for its setting, in front of what the chunks inside it stand for. -/
theorem Spans.blockChunks {p : Placed} {inner : List Chunk} {ps : List Placed}
    (hblock : p.setting.isBlock = true)
    (h : Spans (p.setting.blocks ++ p.enclosures) inner (p.setting.blocks ++ p.enclosures) ps) :
    Spans p.enclosures (p.setting.blockChunks (blockCount p.enclosures) inner) p.enclosures
      (p :: ps) := by
  have hopen : Spans p.enclosures [.opening (blockCount p.enclosures) (some p.setting.info.name)]
      (.block (some p.setting.info.name) :: p.enclosures) [p] := .named (.block hblock) rfl
  rcases isBlock_iff.mp hblock with hkind | hkind
  · have hblocks : p.setting.blocks = [.block (some p.setting.info.name)] := by
      simp [blocks, hkind]
    rw [hblocks] at h
    rw [Setting.blockChunks, if_neg (by simp [hkind])]
    exact .enclosed hopen h
  · have hblocks : p.setting.blocks = [.block none, .block (some p.setting.info.name)] := by
      simp [blocks, hkind]
    rw [hblocks] at h
    rw [Setting.blockChunks, if_pos hkind]
    exact .enclosed hopen (.enclosed (.nameless rfl rfl) h)

mutual

/-- The chunks of a documented setting leave open what they find open, and stand for the settings
shown with it. -/
theorem spans_bodyChunks : ∀ {s : Setting} {around : List Setting} {depth : Nat} {path : String}
    {body : List Chunk}, s.isDocumented = true → depth = blockCount (enclosing around) →
    bodyChunks depth path s = .ok body →
    Spans (Placed.enclosures ⟨s, around⟩) body (Placed.enclosures ⟨s, around⟩)
      (s.shownFrom around)
  | leaf info value, around, depth, path, body, hdoc, hdepth, h => by
    have hblock : (leaf info value).isBlock = false := by
      rw [bodyChunks] at h
      cases hkind : info.kind <;> simp_all [isBlock]
    obtain ⟨text, rfl⟩ := eq_value_of_bodyChunks hdoc hblock h
    refine .named ?_ rfl
    rw [Placed.enclosures, blockCount_groups, ← hdepth]
    exact .line hblock
  | group info cs, around, depth, path, body, hdoc, hdepth, h => by
    let p : Placed := ⟨group info cs, around⟩
    have hcount : depth = blockCount p.enclosures := by
      rw [Placed.enclosures, blockCount_groups, hdepth]
    rw [shownFrom]
    cases hblock : (group info cs).isBlock with
    | false =>
      obtain ⟨text, rfl⟩ := eq_value_of_bodyChunks hdoc hblock h
      exact .named (hcount ▸ .line hblock) rfl
    | true =>
      -- The list inside a block starts with no group of its own open.
      have hdeeper : depth + p.setting.levels = blockCount (enclosing (p.setting :: around)) := by
        rw [hcount, Nat.add_comm, ← blockCount_blocks hblock p.enclosures]
        rfl
      rw [bodyChunks_of_isBlock hblock] at h
      cases hinner : listChunks (depth + p.setting.levels) path false cs with
      | error e =>
        rw [hinner] at h
        cases h
      | ok inner =>
        rw [hinner] at h
        obtain rfl := Except.ok.inj h
        rw [hcount]
        exact .blockChunks hblock (spans_listChunks hdeeper hinner)

/-- The chunks of a list close the group that is open in front of them, or that they open, and
stand for the settings shown of it. -/
theorem spans_listChunks : ∀ {cs : List Setting} {around : List Setting} {depth : Nat}
    {path : String} {expert : Bool} {chunks : List Chunk},
    depth = blockCount (enclosing around) → listChunks depth path expert cs = .ok chunks →
    Spans (groups expert ++ enclosing around) chunks (enclosing around) (shownAllFrom around cs)
  | [], around, depth, path, expert, chunks, hdepth, h => by
    rw [listChunks] at h
    obtain rfl := Except.ok.inj h
    cases expert
    · exact .nil
    · exact .nameless rfl rfl
  | c :: cs, around, depth, path, expert, chunks, hdepth, h => by
    rw [shownAllFrom]
    rcases listChunks_cons_ok h with ⟨hdoc, hrest⟩ | ⟨body, rest, hdoc, hbody, hrest, rfl⟩
    · rw [hdoc, if_neg Bool.false_ne_true]
      exact spans_listChunks hdepth hrest
    · rw [hdoc, if_pos rfl]
      have hstart := (spans_boundary (enclosing around) expert c.info.expert).append
        (spans_commentChunks _ depth (childPath path c.info.name) c)
      exact (hstart.append (spans_bodyChunks hdoc hdepth hbody)).append
        (spans_listChunks hdepth hrest)

end

/-! ## Pages -/

/-- The chunks that a page is spelled from are well nested. Each setting shown has one chunk with
its name, in document order and in the enclosures known from the tree, with a group innermost iff
the setting is for experts. All settings around it are structs or arrays, and its line is
indented by one level for each struct and by two for each array among them. -/
structure NestsWell (root : Setting) (width : Nat) (html : String) (chunks : List Chunk)
    (places : List (Chunk × List Enclosure)) : Prop where
  spelled : html = renderChunks .html width chunks
  nests : nest [] chunks = some ([], places)
  shown : ∀ x, IsShownIn root x ↔ ∃ p ∈ root.shown, p.setting = x
  stands : List.Forall₂ Stands root.shown (places.filter fun e => e.1.name?.isSome)
  around : ∀ p ∈ root.shown, ∀ a ∈ p.around, a.info.kind = .struct ∨ a.info.kind = .array
  innermost : ∀ p ∈ root.shown, p.enclosures.head? = some .group ↔ p.setting.info.expert = true
  blocks : ∀ p ∈ root.shown, blockCount p.enclosures = levelsIn p.around
  lines : List.Forall₂ (fun p e => ∃ rest, e.1.render .html width =
      indent (levelsIn p.around) ++ p.setting.info.name ++ rest)
    root.shown (places.filter fun e => e.1.name?.isSome)

/-- Every page is spelled from chunks that are well nested, and the place of each setting in them
is known from the tree. -/
theorem nestsWell {root : Setting} {width : Nat} {html : String}
    (h : renderHtml width root = .ok html) :
    ∃ chunks places, root.outline = .ok chunks ∧ NestsWell root width html chunks places := by
  unfold renderHtml render at h
  cases houtline : root.outline with
  | error e =>
    rw [houtline] at h
    cases h
  | ok chunks =>
    rw [houtline] at h
    obtain rfl := Except.ok.inj h
    have hblock : ∀ p ∈ root.shown, ∀ a ∈ p.around, a.isBlock = true := fun p hp =>
      isBlock_of_mem_shownAllFrom (List.forall_mem_nil _) hp
    have hcount : ∀ p ∈ root.shown, blockCount p.enclosures = levelsIn p.around := by
      intro p hp
      rw [Placed.enclosures, blockCount_groups, blockCount_enclosing (hblock p hp)]
    have htop : 0 = blockCount (enclosing []) := rfl
    obtain ⟨places, hnest, hstands⟩ := spans_listChunks htop (listChunks_of_outline houtline)
    refine ⟨chunks, places, rfl, rfl, hnest, fun x => mem_shownAllFrom_iff.symm, hstands,
      fun p hp a ha => isBlock_iff.mp (hblock p hp a ha),
      fun p hp => Placed.head?_enclosures (hblock p hp), hcount, ?_⟩
    refine ((List.forall₂_and_left _ _).mpr ⟨hcount, hstands⟩).imp fun p e h => ?_
    rw [← h.1, ← h.2.enclosures]
    exact h.2.own.render .html width

/-- Settings for experts in an array for experts, around a setting that is left out. -/
def shelf : Setting :=
  .makeGroup "Prefs" .struct [.make "Open" .bool (.bool true) "",
    (Setting.makeGroup "Tabs" .array [(Setting.make "Pinned" .bool (.bool false) "").asExpert,
      (Setting.make "Cache" .int (.int 1) "").asInternal,
      (Setting.make "Zoom" .int (.int 3) "").asExpert] "").asExpert] ""

/-- The documentation of `shelf`. -/
def shelfPage : String :=
  Text.unlines ["Open = true", "<div class=expert>", "Tabs [", "  [", "<div class=expert>",
    "    Pinned = false", "    Zoom = 3", "</div>", "  ]", "]", "</div>"]

/-- The page of `shelf` has a group inside an array that stands in a group itself. -/
theorem nestsWell_shelf : renderHtml 80 shelf = .ok shelfPage ∧
    ∃ chunks places, shelf.outline = .ok chunks ∧ NestsWell shelf 80 shelfPage chunks places := by
  have hrender : renderHtml 80 shelf = .ok shelfPage := by decide
  exact ⟨hrender, nestsWell hrender⟩

end Setting

end SettingsCompiler
