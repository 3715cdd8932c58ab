import SettingsCompiler.Workspace.Basic
import Mathlib.Data.List.Nodup

/-!
# Files that stay

Where a path leads depends on its parts alone (`locate_eq`), so two paths lead to one file iff
their `place` is one. Writing a file and making directories keep everything that is somewhere
else (`Retains`), so paths that led somewhere still lead there (`Retains.locate`) and files that
could be read still read the same (`Retains.read`).

A file that was written reads as what was written, unless it stays empty (`write_ok`,
`Holds.read`). Writing the same text again changes nothing (`Holds.write`), and directories
that are there are not made again (`makeDirectories_of_isAround`).
-/

namespace SettingsCompiler

namespace Workspace

/-! ## Where a path leads -/

/-- The location that parts lead to from another one. -/
def destination (l : Location) : List String → Location
  | [] => l
  | part :: parts =>
    if Path.isIdle part then destination l parts
    else if part = ".." then destination (around l) parts
    else destination (l ++ [part]) parts

/-- The location that a path leads to, if it leads anywhere. -/
def place (path : String) : Location :=
  if Path.isAbsolute path then destination ["/"] ((Path.parts path).drop 1)
  else destination [] (Path.parts path)

/-- Where parts lead, if they lead anywhere, is told by the parts alone. -/
theorem follow_eq {w : Workspace} {l' : Location} : ∀ {parts : List String} {l : Location},
    w.follow l parts = .ok l' → l' = destination l parts
  | [], l, h => (Except.ok.inj h).symm
  | part :: parts, l, h => by
    rw [follow] at h
    split at h
    · cases h
    · cases h
    · cases h
    · rw [destination]
      split_ifs at h ⊢
      · exact follow_eq h
      · exact follow_eq h
      · exact follow_eq h

/-- Where a path leads, if it leads anywhere, is its place. -/
theorem locate_eq {w : Workspace} {path : String} {l : Location} (h : w.locate path = .ok l) :
    l = place path := by
  unfold locate at h
  unfold place
  split_ifs at h ⊢
  · exact follow_eq h
  · exact follow_eq h

/-- A path that is short enough and has no character zero is followed from its start on. -/
theorem locate_eq_follow {w : Workspace} {path : String}
    (hpath : '\x00' ∉ path.toList ∧ path ≠ "" ∧ path.utf8ByteSize ≤ pathLimit) :
    w.locate path = if Path.isAbsolute path then w.follow ["/"] ((Path.parts path).drop 1)
      else w.follow [] (Path.parts path) := by
  obtain ⟨hzero, hempty, hlength⟩ := hpath
  have hcontains : path.contains '\x00' = false := by
    rw [String.contains_char_eq]
    exact decide_eq_false hzero
  rw [locate, hcontains, if_neg Bool.false_ne_true, if_neg hempty,
    if_neg (Nat.not_lt.mpr hlength)]

/-! ## Entries -/

theorem ne_nil_of_find? {w : Workspace} {l : Location} (h : w.find? l ≠ some .directory) :
    l ≠ [] := by
  rintro rfl
  exact h rfl

/-- Whether the file at a path stays empty whatever is written to it. -/
def isNull (w : Workspace) (path : String) : Bool :=
  w.find? (place path) == some .null

/-- A path reads as a text if its file holds the text, or the file stays empty and so is the
text. -/
theorem read_ok {w : Workspace} {path s : String} :
    w.read path = .ok s ↔ w.locate path = .ok (place path) ∧
      (w.find? (place path) = some (.file (.text s)) ∨ w.isNull path = true ∧ s = "") := by
  unfold read contents isNull
  cases hl : w.locate path with
  | error e => simp
  | ok l =>
    obtain rfl := locate_eq hl
    dsimp only
    cases w.find? (place path) with
    | none => simp
    | some e =>
      cases e with
      | file c => cases c <;> simp
      | null => simp [eq_comm]
      | directory => simp

/-! ## What a change keeps -/

/-- Everything in `w` is in `w'` as well, except that files at the locations `ls` may hold
something else, and no file became one that stays empty. -/
structure Retains (ls : List Location) (w w' : Workspace) : Prop where
  keeps : ∀ {l e}, w.find? l = some e → l ∉ ls ∨ e = .directory → w'.find? l = some e
  null_iff : ∀ l, w'.find? l = some .null ↔ w.find? l = some .null

namespace Retains

variable {ls : List Location} {w w' w'' : Workspace}

theorem refl : Retains ls w w :=
  ⟨fun h _ => h, fun _ => Iff.rfl⟩

/-- What two changes keep one after the other, both keep together. -/
theorem trans (h : Retains ls w w') (h' : Retains ls w' w'') : Retains ls w w'' :=
  ⟨fun hl hkeep => h'.keeps (h.keeps hl hkeep) hkeep, fun l => (h'.null_iff l).trans (h.null_iff l)⟩

theorem mono {ls' : List Location} (h : Retains ls w w') (hls : ls ⊆ ls') : Retains ls' w w' :=
  ⟨fun hl hkeep => h.keeps hl (hkeep.imp (fun hnot hmem => hnot (hls hmem)) id), h.null_iff⟩

/-- A directory may be put where nothing was, and a file at one of the locations too. -/
theorem put {l : Location} {e : Entry}
    (hentry : w.find? l = none ∨ l ∈ ls ∧ ∃ c, w.find? l = some (.file c)) (he : e ≠ .null) :
    Retains ls w (w.put l e) := by
  have hl : l ≠ [] := by
    refine ne_nil_of_find? (w := w) ?_
    rcases hentry with h | ⟨-, c, h⟩
    · simp [h]
    · simp [h]
  constructor
  · intro k x hk hkeep
    rw [find?_put hl, if_neg, hk]
    rintro rfl
    rcases hentry with h | ⟨hmem, c, h⟩
    · cases hk.symm.trans h
    · rcases hkeep with hnot | rfl
      · exact hnot hmem
      · cases hk.symm.trans h
  · intro k
    rw [find?_put hl]
    split
    · next hk =>
      subst hk
      rcases hentry with h | ⟨-, c, h⟩
      · simp [h, he]
      · simp [h, he]
    · rfl

/-- Parts that led somewhere still lead there. -/
theorem follow (h : Retains ls w w') {l' : Location} : ∀ {parts : List String} {l : Location},
    w.follow l parts = .ok l' → w'.follow l parts = .ok l'
  | [], _, hl => hl
  | part :: parts, l, hl => by
    rw [Workspace.follow] at hl ⊢
    split at hl
    · cases hl
    · cases hl
    · cases hl
    · next hdir =>
      rw [h.keeps hdir (.inr rfl)]
      dsimp only
      split_ifs at hl ⊢
      · exact h.follow hl
      · exact h.follow hl
      · exact h.follow hl

/-- A path that led somewhere still leads there. -/
theorem locate (h : Retains ls w w') {path : String} {l : Location}
    (hl : w.locate path = .ok l) : w'.locate path = .ok l := by
  unfold Workspace.locate at hl ⊢
  split_ifs at hl ⊢
  · exact h.follow hl
  · exact h.follow hl

/-- A directory is still one. -/
theorem isDirectory (h : Retains ls w w') {path : String} (hdir : w.isDirectory path = true) :
    w'.isDirectory path = true := by
  unfold Workspace.isDirectory at hdir ⊢
  split at hdir
  · next l hl =>
    rw [h.locate hl]
    exact beq_iff_eq.mpr (h.keeps (beq_iff_eq.mp hdir) (.inr rfl))
  · cases hdir

/-- The files that stay empty are the same ones. -/
theorem isNull (h : Retains ls w w') (path : String) : w'.isNull path = w.isNull path := by
  have hnull := h.null_iff (place path)
  rw [Workspace.isNull, Workspace.isNull, Bool.eq_iff_iff, beq_iff_eq, beq_iff_eq, hnull]

/-- A file elsewhere still reads the same. -/
theorem read (h : Retains ls w w') {path s : String} (hread : w.read path = .ok s)
    (hpath : place path ∉ ls) : w'.read path = .ok s := by
  obtain ⟨hlocate, hentry⟩ := read_ok.mp hread
  refine read_ok.mpr ⟨h.locate hlocate, hentry.imp (fun hfile => h.keeps hfile (.inl hpath)) ?_⟩
  rw [h.isNull]
  exact id

end Retains

/-! ## Directories -/

/-- A directory is made where nothing was. -/
theorem makeDirectory_ok {w w' : Workspace} {path : String} (h : w.makeDirectory path = .ok w') :
    ∃ l, w.locate (withoutSlashes path) = .ok l ∧ w.find? l = none ∧ w' = w.put l .directory := by
  unfold makeDirectory at h
  split at h
  · cases h
  · next l hl =>
    split at h
    · cases h
    · next hnone =>
      split at h
      · exact ⟨l, hl, hnone, (Except.ok.inj h).symm⟩
      · cases h
      · cases h
      · cases h

/-- Ensuring a directory keeps everything, also where it fails. -/
theorem retains_ensureDirectory (w : Workspace) (path : String) :
    Retains [] w (w.ensureDirectory path).2 := by
  unfold ensureDirectory
  split
  · next w' h =>
    obtain ⟨l, -, hnone, rfl⟩ := makeDirectory_ok h
    exact .put (.inl hnone) nofun
  · exact .refl

/-- Making directories keeps everything, also if some cannot be made ; if all are, the last one
is ensured. -/
theorem makeDirectoriesTo_spec : ∀ (depth : Nat) (w : Workspace) (path : String),
    Retains [] w (makeDirectoriesTo depth w path).2 ∧
      ((makeDirectoriesTo depth w path).1 = .ok () →
        path = "" ∨ ∃ w₁, makeDirectoriesTo depth w path = ensureDirectory w₁ path)
  | depth, w, path => by
    have hfirst := retains_ensureDirectory w path
    rw [makeDirectoriesTo.eq_def]
    split
    · next hpath => exact ⟨.refl, fun _ => .inl hpath⟩
    · split
      · next w₁ hw₁ =>
        rw [hw₁] at hfirst
        split
        · next depth parent _ =>
          have hparent := (makeDirectoriesTo_spec depth w₁ parent).1
          split
          · next e w₂ hw₂ =>
            rw [hw₂] at hparent
            exact ⟨hfirst.trans hparent, nofun⟩
          · next w₂ hw₂ =>
            rw [hw₂] at hparent
            exact ⟨(hfirst.trans hparent).trans (retains_ensureDirectory w₂ path),
              fun _ => .inr ⟨w₂, rfl⟩⟩
        · exact ⟨hfirst, nofun⟩
      · exact ⟨hfirst, fun _ => .inr ⟨w, rfl⟩⟩

/-- A directory is there, which the empty path names at all times. -/
def IsAround (w : Workspace) (path : String) : Prop :=
  path = "" ∨ w.isDirectory path = true

theorem Retains.isAround {ls : List Location} {w w' : Workspace} (h : Retains ls w w')
    {path : String} (hpath : w.IsAround path) : w'.IsAround path :=
  hpath.imp id h.isDirectory

theorem isDirectory_of_ensureDirectory {w w' : Workspace} {path : String}
    (hpath : withoutSlashes path = path) (h : w.ensureDirectory path = (.ok (), w')) :
    w'.isDirectory path = true := by
  unfold ensureDirectory at h
  split at h
  · next w₁ hw₁ =>
    obtain ⟨l, hl, hnone, rfl⟩ := makeDirectory_ok hw₁
    rw [hpath] at hl
    obtain rfl := (Prod.mk.inj h).2
    have hput : Retains [] w (w.put l .directory) := .put (.inl hnone) nofun
    have hne : l ≠ [] := ne_nil_of_find? (w := w) (by simp [hnone])
    rw [isDirectory, hput.locate hl]
    exact beq_iff_eq.mpr ((find?_put hne).trans (if_pos rfl))
  · obtain ⟨hok, rfl⟩ := Prod.mk.inj h
    split at hok
    · assumption
    · cases hok

theorem ensureDirectory_of_isDirectory {w : Workspace} {path : String}
    (hpath : withoutSlashes path = path) (h : w.isDirectory path = true) :
    w.ensureDirectory path = (.ok (), w) := by
  have hmake : ∃ e, w.makeDirectory path = .error e := by
    unfold isDirectory at h
    unfold makeDirectory
    rw [hpath]
    split at h
    · next l hl =>
      rw [hl]
      dsimp only
      rw [beq_iff_eq.mp h]
      exact ⟨_, rfl⟩
    · cases h
  obtain ⟨e, he⟩ := hmake
  rw [ensureDirectory, he]
  dsimp only
  rw [if_pos h]

/-- Directories that were made are there. -/
theorem isAround_of_makeDirectories {w w' : Workspace} {path : String}
    (hpath : withoutSlashes path = path) (h : w.makeDirectories path = (.ok (), w')) :
    w'.IsAround path := by
  have hspec := (makeDirectoriesTo_spec path.length w path).2
  rw [makeDirectories] at h
  rw [h] at hspec
  refine (hspec rfl).imp id ?_
  rintro ⟨w₁, hw₁⟩
  exact isDirectory_of_ensureDirectory hpath hw₁.symm

/-- Directories that are there are not made again. -/
theorem makeDirectories_of_isAround {w : Workspace} {path : String}
    (hpath : withoutSlashes path = path) (h : w.IsAround path) :
    w.makeDirectories path = (.ok (), w) := by
  rw [makeDirectories, makeDirectoriesTo.eq_def]
  split
  · rfl
  · next hne =>
    rw [ensureDirectory_of_isDirectory hpath (h.resolve_left hne)]

/-! ## The directory of a path -/

theorem withoutSlashes_of_getLast? {path : String} (h : path.toList.getLast? ≠ some '/') :
    withoutSlashes path = path := by
  have hdrop : path.toList.reverse.dropWhile (· = '/') = path.toList.reverse := by
    cases hrev : path.toList.reverse with
    | nil => rfl
    | cons c cs =>
      have hc : c ≠ '/' := by
        rintro rfl
        exact h (by rw [← List.head?_reverse, hrev, List.head?_cons])
      exact List.dropWhile_cons_of_neg (by simpa using hc)
  rw [withoutSlashes, hdrop]
  split
  · rfl
  · rw [List.reverse_reverse, String.ofList_toList]

end Workspace

namespace Path

theorem dropIdle_cons_cons (part next : String) (rest : List String) :
    dropIdle (part :: next :: rest) =
      if isIdle part then dropIdle (next :: rest) else part :: next :: rest := rfl

theorem dropIdle_suffix : ∀ parts : List String, dropIdle parts <:+ parts
  | [] => List.suffix_rfl
  | [_] => List.suffix_rfl
  | part :: next :: rest => by
    rw [dropIdle_cons_cons]
    split
    · exact (dropIdle_suffix (next :: rest)).trans (List.suffix_cons part _)
    · exact List.suffix_rfl

theorem isIdle_of_dropIdle {part : String} {rest : List String} : ∀ {parts : List String},
    dropIdle parts = part :: rest → rest = [] ∨ isIdle part = false
  | [_], h => .inl (List.cons.inj h).2.symm
  | first :: next :: parts, h => by
    rw [dropIdle_cons_cons] at h
    split at h
    · exact isIdle_of_dropIdle h
    · next hidle =>
      obtain ⟨rfl, -⟩ := List.cons.inj h
      exact .inr (by simpa using hidle)

/-- A directory is named without slashes at the end, unless there is nothing else. -/
theorem withoutSlashes_ofReversed {absolute : Bool} {parts : List String}
    (hparts : ∀ part ∈ parts, '/' ∉ part.toList) :
    Workspace.withoutSlashes (ofReversed absolute (dropIdle parts)) =
      ofReversed absolute (dropIdle parts) := by
  cases hdrop : dropIdle parts with
  | nil => rfl
  | cons part rest =>
    by_cases hempty : part = ""
    · obtain rfl : rest = [] := (isIdle_of_dropIdle hdrop).resolve_right (by simp [hempty, isIdle])
      subst hempty
      cases absolute <;> rfl
    · have hmem : part ∈ parts :=
        (dropIdle_suffix parts).subset (hdrop ▸ List.mem_cons_self)
      have hjoin : ofReversed absolute (part :: rest) =
          Text.joinWith "/" (rest.reverse ++ [part]) := by
        rw [← List.reverse_cons, ofReversed]
        rintro ⟨⟩
        exact hempty rfl
      refine Workspace.withoutSlashes_of_getLast? fun hlast => ?_
      rw [hjoin, Text.getLast?_joinWith "/" hempty] at hlast
      exact hparts part hmem (List.mem_of_getLast? hlast)

theorem not_mem_parts (path : String) {part : String} (h : part ∈ parts path) :
    '/' ∉ part.toList := by
  obtain ⟨cs, hcs, rfl⟩ := List.mem_map.mp h
  rw [String.toList_ofList]
  intro hmem
  have hsep := (Text.mem_of_mem_pieces hmem hcs).2
  cases hsep

/-- The directory of a path is named without slashes at the end. -/
theorem withoutSlashes_parent? {path parent : String} (h : parent? path = some parent) :
    Workspace.withoutSlashes parent = parent := by
  unfold parent? at h
  split at h
  · cases h
  · cases h
  · next part rest _ hdrop =>
    obtain rfl := Option.some.inj h
    refine withoutSlashes_ofReversed fun part hpart => not_mem_parts path ?_
    have hmem := (dropIdle_suffix _).subset (hdrop ▸ List.mem_cons_of_mem _ hpart)
    exact List.mem_reverse.mp hmem

end Path

namespace Workspace

/-! ## Files -/

theorem putEntry_of_lookup {l : Location} {e : Entry} : ∀ {entries : List (Location × Entry)},
    entries.lookup l = some e → putEntry l e entries = entries
  | (k, x) :: rest, h => by
    rw [List.lookup_cons] at h
    rw [putEntry]
    split at h
    · next hk =>
      rw [if_pos (beq_iff_eq.mp hk).symm, Option.some.inj h, beq_iff_eq.mp hk]
    · next hk =>
      rw [if_neg fun hkl => by simp [hkl] at hk, putEntry_of_lookup h]

/-- An entry that is put where it is already changes nothing. -/
theorem put_of_find? {w : Workspace} {l : Location} {e : Entry} (hl : l ≠ [])
    (h : w.find? l = some e) : w.put l e = w := by
  rw [find?, if_neg hl] at h
  rw [put, putEntry_of_lookup h]

/-- There is a file at a path, with a text or bytes or one that stays empty. -/
structure HasFile (w : Workspace) (path : String) : Prop where
  located : w.locate path = .ok (place path)
  entry : ∃ e, w.find? (place path) = some e ∧ e ≠ .directory

/-- The file at a path holds a text, unless it stays empty. -/
structure Holds (w : Workspace) (path s : String) : Prop where
  located : w.locate path = .ok (place path)
  entry : w.find? (place path) = some (.file (.text s)) ∨ w.isNull path = true

theorem Holds.hasFile {w : Workspace} {path s : String} (h : w.Holds path s) :
    w.HasFile path where
  located := h.located
  entry := h.entry.elim (fun hfile => ⟨_, hfile, nofun⟩)
    fun hnull => ⟨_, beq_iff_eq.mp hnull, nofun⟩

/-- A file elsewhere still holds its text. -/
theorem Retains.holds {ls : List Location} {w w' : Workspace} {path s : String}
    (h : Retains ls w w') (hpath : place path ∉ ls) (hholds : w.Holds path s) :
    w'.Holds path s where
  located := h.locate hholds.located
  entry := hholds.entry.imp (fun hentry => h.keeps hentry (.inl hpath))
    fun hnull => (h.isNull path).trans hnull

/-- A file can be written where its path leads to no directory. -/
theorem target_ok {w : Workspace} {path : String} {l : Location} (h : w.target path = .ok l) :
    w.locate path = .ok l ∧ w.find? l ≠ some .directory := by
  unfold target at h
  split at h
  · split at h
    · cases h
    · cases h
  · next k hk =>
    rw [hk]
    split at h
    · cases h
    · next hentry => exact ⟨h, by rw [← Except.ok.inj h, hentry]; nofun⟩
    · next hentry => exact ⟨h, by rw [← Except.ok.inj h, hentry]; nofun⟩
    · next hentry =>
      split at h
      · exact ⟨h, by rw [← Except.ok.inj h, hentry]; nofun⟩
      · cases h
      · cases h
      · cases h

/-- A file that is there is written at its place. -/
theorem HasFile.target {w : Workspace} {path : String} (h : w.HasFile path) :
    w.target path = .ok (place path) := by
  obtain ⟨e, hentry, hdir⟩ := h.entry
  rw [Workspace.target, h.located]
  dsimp only
  rw [hentry]
  cases e with
  | file c => rfl
  | null => rfl
  | directory => exact absurd rfl hdir

/-- A text is written unless the file stays empty. -/
theorem write_of_target {w : Workspace} {path s : String} {l : Location}
    (h : w.target path = .ok l) : w.write path s =
      .ok (if w.find? l = some .null then w else w.put l (.file (.text s))) := by
  rw [write, store, h, apply_ite Except.ok]

/-- A file that was written holds the text, and everything elsewhere stays. -/
theorem write_ok {w w' : Workspace} {path s : String} (h : w.write path s = .ok w') :
    Retains [place path] w w' ∧ w'.Holds path s := by
  cases htarget : w.target path with
  | error e =>
    rw [write, store, htarget] at h
    cases h
  | ok l =>
    obtain ⟨hlocate, hdir⟩ := target_ok htarget
    obtain rfl := locate_eq hlocate
    rw [write_of_target htarget, Except.ok.injEq] at h
    split at h
    · next hnull =>
      subst h
      exact ⟨.refl, hlocate, .inr (beq_iff_eq.mpr hnull)⟩
    · next hnull =>
      subst h
      have hput : Retains [place path] w (w.put (place path) (.file (.text s))) := by
        refine .put ?_ nofun
        cases hentry : w.find? (place path) with
        | none => exact .inl rfl
        | some e =>
          cases e with
          | file c => exact .inr ⟨List.mem_cons_self, c, rfl⟩
          | null => exact absurd hentry hnull
          | directory => exact absurd hentry hdir
      exact ⟨hput, hput.locate hlocate,
        .inl ((find?_put (ne_nil_of_find? hdir)).trans (if_pos rfl))⟩

/-- A file that is there can be written. -/
theorem HasFile.exists_write {w : Workspace} {path : String} (h : w.HasFile path) (s : String) :
    ∃ w', w.write path s = .ok w' :=
  ⟨_, write_of_target h.target⟩

/-- Files that are there are there after any of them was written. -/
theorem HasFile.retained {w w' : Workspace} {path path' s : String} (h : w.HasFile path)
    (hret : Retains [place path'] w w') (hholds : w'.Holds path' s) : w'.HasFile path where
  located := hret.locate h.located
  entry := by
    by_cases hpath : place path = place path'
    · rw [hpath]
      exact hholds.hasFile.entry
    · obtain ⟨e, hentry, hdir⟩ := h.entry
      exact ⟨e, hret.keeps hentry (.inl (by simpa using hpath)), hdir⟩

namespace Holds

variable {w : Workspace} {path s : String}

/-- The file reads as the text, unless it stays empty. -/
theorem read (h : w.Holds path s) :
    w.read path = .ok (if w.isNull path then "" else s) := by
  refine read_ok.mpr ⟨h.located, ?_⟩
  cases hnull : w.isNull path with
  | true => exact .inr ⟨rfl, rfl⟩
  | false => exact .inl (h.entry.resolve_right (by simp [hnull]))

/-- Writing the same text again changes nothing. -/
theorem write (h : w.Holds path s) : w.write path s = .ok w := by
  rw [write_of_target h.hasFile.target]
  split
  · rfl
  · next hnull =>
    have hentry := h.entry.resolve_right fun h => hnull (beq_iff_eq.mp h)
    have hne : place path ≠ [] := ne_nil_of_find? (w := w) (by simp [hentry])
    rw [put_of_find? hne hentry]

end Holds

end Workspace

end SettingsCompiler
