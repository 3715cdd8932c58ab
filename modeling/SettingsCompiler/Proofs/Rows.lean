import SettingsCompiler.Proofs.Tabulation

/-!
# The settings that have a row

A table has one row for each setting of its composite that is listed, in order, and each row
carries the kind and the name of its setting (`rowsOf_listed`). Comments are listed before
anyone asks whether they are internal : a table has a row for each setting that is not
internal, and no other, exactly if none of its comments is internal
(`rowsOf_visible_iff`).

`listsSettings` says this of every visible composite under a root.
-/

namespace SettingsCompiler.Setting

open Header

/-- A row carries the kind of a setting and its name ; that of a comment has neither a name
nor storage. -/
structure IsRowOf (c : Setting) (row : Row) : Prop where
  kind : row.kind = c.info.kind
  name : row.name = if c.isComment then "" else c.info.name
  storage : row.offset = .noStorage ↔ c.isComment = true

/-- One row for each setting, in order. -/
abbrev RowsOf (cs : List Setting) (rows : List Row) : Prop :=
  List.Forall₂ IsRowOf cs rows

/-- What a row shows of a setting includes its kind and its name. -/
theorem Shows.isRowOf {slot : Nat} {table : TableName} {c : Setting} {row : Row}
    (h : Shows slot table c row) : IsRowOf c row where
  kind := h.kind
  name := h.name
  storage := by
    rw [h.offset]
    cases c.isComment <;> simp

theorem map_fst_listed (cs : List Setting) (i : Nat) :
    (listed i cs).map Prod.fst = cs.filter isListed := by
  induction cs generalizing i with
  | nil => rfl
  | cons c cs ih =>
    rw [listed_cons, List.map_append, ih, List.filter_cons]
    split <;> rfl

/-- The rows of a table are those of the listed settings. -/
theorem rowsOf_listed {names : List Nat → String → TableName} {site : Site} {t : Table}
    (h : Describes names site t) : RowsOf (site.setting.children.filter isListed) t.rows := by
  rw [← map_fst_listed site.setting.children 0, RowsOf, List.forall₂_map_left_iff]
  exact h.rows.imp fun _ _ hrow => hrow.isRowOf

/-- Rows of the listed settings are rows of those that are not internal exactly if no comment
is internal. -/
theorem rowsOf_visible_iff {cs : List Setting} {rows : List Row}
    (h : RowsOf (cs.filter isListed) rows) :
    RowsOf (cs.filter fun c => !c.info.internal) rows ↔
      ∀ c ∈ cs, c.isComment = true → c.info.internal = false := by
  have hsub : cs.filter (fun c => !c.info.internal) =
      (cs.filter isListed).filter fun c => !c.info.internal := by
    rw [List.filter_filter]
    refine List.filter_congr fun c _ => ?_
    cases hint : c.info.internal <;> simp [isListed, hint]
  constructor
  · intro hrows c hc hcom
    have hlen := hrows.length_eq.trans h.length_eq.symm
    rw [hsub, List.length_filter_eq_length_iff] at hlen
    have hlisted : c.isListed = true := by simp [isListed, hcom]
    simpa using hlen c (List.mem_filter.mpr ⟨hc, hlisted⟩)
  · intro hcom
    have hall : (cs.filter isListed).filter (fun c => !c.info.internal) = cs.filter isListed := by
      refine List.filter_eq_self.mpr fun c hc => ?_
      obtain ⟨hmem, hlisted⟩ := List.mem_filter.mp hc
      rcases Bool.or_eq_true_iff.mp hlisted with hcomment | hvisible
      · simp [hcom c hmem hcomment]
      · exact hvisible
    rwa [hsub, hall]

/-- The tables of a root list the settings of its visible composites : each has one row for
each comment and each setting that is not internal, in order. Where no comment is internal,
and only there, that is one row for each setting that is not internal. -/
structure ListsSettings (root : Setting) (ts : List Table) : Prop where
  postorder : Enumerates root PostBefore root.postorder
  rows : List.Forall₂ (fun site t => RowsOf (site.setting.children.filter isListed) t.rows)
    root.postorder ts
  visible : List.Forall₂ (fun site t =>
      RowsOf (site.setting.children.filter fun c => !c.info.internal) t.rows ↔
        ∀ c ∈ site.setting.children, c.isComment = true → c.info.internal = false)
    root.postorder ts

/-- Every table of a root has the rows of its listed settings, whatever was registered before ;
where no comment is internal these are the settings that are not internal. -/
theorem listsSettings {root : Setting} {r r' : Registry} {ts : List Table}
    (h : root.tables.runFrom r = (.ok ts, r')) : ListsSettings root ts where
  postorder := enumerates_postorder root
  rows := (describes_of_tables h).imp fun _ _ hd => rowsOf_listed hd
  visible := (describes_of_tables h).imp fun _ _ hd => rowsOf_visible_iff (rowsOf_listed hd)

/-- A struct with an internal comment in front of an internal and a visible setting. -/
def noted : Setting :=
  .makeGroup "Prefs" .struct [(Setting.make "" .comment .null "note").asInternal,
    (Setting.make "Cache" .int (.int 1) "").asInternal, .make "Open" .bool (.bool true) ""] ""

/-- The table of `noted` is made, with a row for its internal comment. -/
theorem listsSettings_noted :
    ∃ ts r', noted.tables.runFrom .empty = (.ok ts, r') ∧ ListsSettings noted ts :=
  ⟨_, _, rfl, listsSettings rfl⟩

/-- An internal comment has a row. -/
theorem not_rowsOf_visible_noted : ∃ t r', noted.tables.runFrom .empty = (.ok [t], r') ∧
    ¬RowsOf (noted.children.filter fun c => !c.info.internal) t.rows := by
  refine ⟨_, _, rfl, fun hrows => ?_⟩
  have hlen := hrows.length_eq
  revert hlen
  decide

end SettingsCompiler.Setting
