import SettingsCompiler.Setting.Stamp
import SettingsCompiler.Header.Unit
import SettingsCompiler.Docs.Plain
import SettingsCompiler.Docs.Html
import Mathlib.Data.List.Forall2

/-!
# What a stamped version changes

Stamping rewrites the comments of a root's own comment entries. No struct has a member for
such an entry and no documentation shows it, so definitions and documentation stay what they
are, also where there is none because of a fault (`structDefs_stamp`, `outline_stamp`). An
entry's text reaches one place only, the literal of its row in the root's own table.

Two runs over the tables, one of them over the stamped root, go through the same steps and
leave the same registry (`restamps_tabulateAll`). Their rows are the same but for those of
comments, which hold the stamped text in place of the other (`RestampsRow`).

`confinesStamp` says this of the passes over a root, for every version and registry and at
every width.
-/

namespace SettingsCompiler

open Header

namespace Setting

/-! ## Stamped entries -/

theorem stampEntry_of_not_isComment {c : Setting} (h : c.isComment = false) (version : String) :
    c.stampEntry version = c := by
  rw [stampEntry, h]
  rfl

/-- Of a comment entry its texts are stamped and nothing else. -/
theorem info_stampEntry {c : Setting} (h : c.isComment = true) (version : String) :
    (c.stampEntry version).info = { c.info with
      comment := stampText version c.info.comment,
      docComment := stampText version c.info.comment } := by
  rw [stampEntry, if_pos h]
  cases c <;> rfl

theorem isComment_stampEntry (version : String) (c : Setting) :
    (c.stampEntry version).isComment = c.isComment := by
  cases hcom : c.isComment with
  | false => rw [stampEntry_of_not_isComment hcom, hcom]
  | true => rw [isComment, info_stampEntry hcom, ← hcom, isComment]

theorem kind_eq_of_isComment {c : Setting} (h : c.isComment = true) : c.info.kind = .comment :=
  beq_iff_eq.mp h

/-- A function that looks at no comment entry takes the same values on stamped entries. -/
theorem flatMap_stampEntry {α : Type} {f : Setting → List α}
    (hf : ∀ c, c.isComment = true → f c = []) (version : String) (cs : List Setting) :
    (cs.map (stampEntry version)).flatMap f = cs.flatMap f := by
  rw [List.flatMap_map]
  refine List.flatMap_congr fun c _ => ?_
  cases hcom : c.isComment with
  | false => rw [stampEntry_of_not_isComment hcom]
  | true => rw [hf c hcom, hf _ ((isComment_stampEntry version c).trans hcom)]

/-! ## Definitions -/

theorem identsOf_stamp (version : String) (cs : List Setting) :
    identsOf (cs.map (stampEntry version)) = identsOf cs := by
  refine flatMap_stampEntry (fun c hcom => ?_) version cs
  rw [memberIdents, kind_eq_of_isComment hcom]
  rfl

/-- Comment entries contribute no identifier, so the check finds the same. -/
theorem checkIdentifiers_stamp (version : String) (info : Info) (cs : List Setting) :
    (group info (cs.map (stampEntry version))).checkIdentifiers =
      (group info cs).checkIdentifiers := by
  rw [checkIdentifiers, checkIdentifiers, fields, fields]
  cases info.kind.isComposite with
  | false => rfl
  | true => simp only [if_true, checkIdents, identsOf_stamp, info_group]

/-- A definition has no member for a comment entry. -/
theorem definition_stamp (version : String) (info : Info) (cs : List Setting) :
    StructDef.of info (cs.map (stampEntry version)) = StructDef.of info cs := by
  rw [StructDef.of, StructDef.of, flatMap_stampEntry fun c hcom => ?_]
  rw [membersOf, kind_eq_of_isComment hcom]

/-- The pass over the structs goes by comment entries. -/
theorem defineAll_stamp (version : String) : ∀ cs : List Setting,
    defineAll (cs.map (stampEntry version)) = defineAll cs
  | [] => rfl
  | c :: cs => by
    rw [List.map_cons, defineAll, defineAll, defineAll_stamp version cs]
    cases hcom : c.isComment with
    | false => rw [stampEntry_of_not_isComment hcom]
    | true =>
      rw [info_stampEntry hcom, kind_eq_of_isComment hcom]
      rfl

/-- The structs of a stamped root are those of the root, registry and fault included. -/
theorem structDefs_stamp (version : String) (root : Setting) :
    (root.stamp version).structDefs = root.structDefs := by
  cases root with
  | leaf info value => rfl
  | group info cs =>
    simp only [stamp, structDefs, define, checkIdentifiers_stamp, defineAll_stamp,
      definition_stamp]
    rfl

/-! ## Documentation -/

/-- Comment entries are not documented, so the chunks of a list stay the same. -/
theorem listChunks_stamp (version : String) : ∀ (cs : List Setting) (depth : Nat) (path : String)
    (expert : Bool), listChunks depth path expert (cs.map (stampEntry version)) =
      listChunks depth path expert cs
  | [], _, _, _ => rfl
  | c :: cs, depth, path, expert => by
    have ih := listChunks_stamp version cs depth path
    cases hcom : c.isComment with
    | false =>
      rw [List.map_cons, stampEntry_of_not_isComment hcom, listChunks, listChunks, ih, ih]
    | true =>
      have hdoc {d : Setting} (hd : d.isComment = true) : d.isDocumented = false := by
        rw [isDocumented, hd]
        exact Bool.and_false _
      rw [List.map_cons, listChunks, listChunks, hdoc hcom,
        hdoc ((isComment_stampEntry version c).trans hcom)]
      exact ih expert

/-- The outline of a stamped root is that of the root, or the same fault. -/
theorem outline_stamp (version : String) (root : Setting) :
    (root.stamp version).outline = root.outline := by
  cases root with
  | leaf info value => rfl
  | group info cs =>
    rw [stamp, outline, outline, fields, fields]
    cases info.kind.isComposite with
    | false => rfl
    | true => exact listChunks_stamp version cs 0 "" false

end Setting

namespace Header

/-! ## Tables -/

/-- The literal of a comment. -/
def commentLiteral (comment : String) : Literal :=
  if comment = "" then .null else .str comment

/-- The second row is the first, but the comment in a row without storage is stamped. -/
structure RestampsRow (version : String) (row row' : Row) : Prop where
  offset : row'.offset = row.offset
  kind : row'.kind = row.kind
  name : row'.name = row.name
  stored : row.offset ≠ .noStorage → row'.default = row.default
  comment : row.offset = .noStorage → ∃ comment, row.default = commentLiteral comment ∧
    row'.default = commentLiteral (stampText version comment)

theorem RestampsRow.of_member (version : String) (info : Info) (index : Nat) (l : Literal) :
    RestampsRow version (.ofMember info index l) (.ofMember info index l) :=
  ⟨rfl, rfl, rfl, fun _ => rfl, nofun⟩

/-- The row of a stamped comment is the row of the comment, stamped. -/
theorem RestampsRow.of_comment (version comment : String) :
    RestampsRow version (.ofComment (commentLiteral comment))
      (.ofComment (commentLiteral (stampText version comment))) :=
  ⟨rfl, rfl, rfl, fun h => absurd rfl h, fun _ => ⟨comment, rfl, rfl⟩⟩

/-- The second table is the first, its comments stamped. -/
structure RestampsTable (version : String) (t t' : Table) : Prop where
  name : t'.name = t.name
  structName : t'.structName = t.structName
  rows : List.Forall₂ (RestampsRow version) t.rows t'.rows

/-- The second tables are the first, the comments stamped in the last, which has the name
`own`. -/
inductive RestampsLast (version : String) (own : TableName) : List Table → List Table → Prop
  | last {nested : List Table} {t t' : Table} : t.name = own → RestampsTable version t t' →
      RestampsLast version own (nested ++ [t]) (nested ++ [t'])

end Header

namespace Registering

variable {ε α β : Type}

/-- Two runs that fail alike or have results related by `R`, and leave the same registry. -/
inductive SameUpTo (R : α → α → Prop) : Except ε α × Registry → Except ε α × Registry → Prop
  | ok {a a' : α} {r : Registry} : R a a' → SameUpTo R (.ok a, r) (.ok a', r)
  | error {e : ε} {r : Registry} : SameUpTo R (.error e, r) (.error e, r)

/-- What comes behind related results is related if each step is. -/
theorem SameUpTo.bind {R : α → α → Prop} {S : β → β → Prop} {m m' : Registering ε α}
    {next next' : α → Registering ε β} {r : Registry}
    (hm : SameUpTo R (m.runFrom r) (m'.runFrom r))
    (hnext : ∀ {a a'} r, R a a' → SameUpTo S ((next a).runFrom r) ((next' a').runFrom r)) :
    SameUpTo S ((m >>= next).runFrom r) ((m' >>= next').runFrom r) := by
  rw [runFrom_bind, runFrom_bind]
  generalize m.runFrom r = outcome, m'.runFrom r = outcome' at hm
  cases hm with
  | ok hR => exact hnext _ hR
  | error => exact .error

theorem SameUpTo.refl {R : α → α → Prop} (hR : ∀ a, R a a) :
    ∀ outcome : Except ε α × Registry, SameUpTo R outcome outcome
  | (.ok a, _) => .ok (hR a)
  | (.error _, _) => .error

/-- The same computation in front changes nothing. -/
theorem SameUpTo.after {S : β → β → Prop} (m : Registering ε α)
    {next next' : α → Registering ε β} {r : Registry}
    (hnext : ∀ a r, SameUpTo S ((next a).runFrom r) ((next' a).runFrom r)) :
    SameUpTo S ((m >>= next).runFrom r) ((m >>= next').runFrom r) :=
  .bind (R := Eq) (.refl (fun _ => rfl) _) fun {a _} r h => h ▸ hnext a r

end Registering

namespace Setting

theorem encode_of_isComment {c : Setting} (h : c.isComment = true) (table : Option String) :
    c.encode table = .ok (commentLiteral c.info.comment) := by
  rw [encode.eq_def, if_pos h]
  rfl

/-- The same tables, and the same rows, the comments stamped. -/
def RestampsRows (version : String) (a a' : List Table × List Row) : Prop :=
  a'.1 = a.1 ∧ List.Forall₂ (RestampsRow version) a.2 a'.2

open Registering in
/-- Two runs over a list, one of them stamped, go step by step and leave the same registry. -/
theorem restamps_tabulateAll (version : String) : ∀ (cs : List Setting) (index : Nat)
    (r : Registry), SameUpTo (RestampsRows version) ((tabulateAll index cs).runFrom r)
      ((tabulateAll index (cs.map (stampEntry version))).runFrom r)
  | [], _, _ => .ok ⟨rfl, .nil⟩
  | c :: cs, index, r => by
    -- Behind the tables and the row of the first setting the runs go on with the rest.
    have rest (nested : List Table) {row row' : List Row} (index : Nat) (r : Registry)
        (hrow : List.Forall₂ (RestampsRow version) row row') :
        SameUpTo (RestampsRows version)
          ((tabulateAll index cs >>= fun p => pure (nested ++ p.1, row ++ p.2)).runFrom r)
          ((tabulateAll index (cs.map (stampEntry version)) >>= fun p =>
            pure (nested ++ p.1, row' ++ p.2)).runFrom r) := by
      refine .bind (restamps_tabulateAll version cs index r) fun r h => ?_
      exact .ok ⟨by rw [h.1], List.rel_append hrow h.2⟩
    rw [List.map_cons, tabulateAll, tabulateAll]
    cases hcom : c.isComment with
    | true =>
      have hcom' := (isComment_stampEntry version c).trans hcom
      rw [hcom', if_pos rfl, if_pos rfl, encode_of_isComment hcom, encode_of_isComment hcom',
        info_stampEntry hcom]
      exact rest [] _ r (.cons (.of_comment version c.info.comment) .nil)
    | false =>
      rw [stampEntry_of_not_isComment hcom, hcom]
      have member (nested : List Table) (l : Literal) (index' : Nat) (r : Registry) :=
        rest nested index' r (.cons (.of_member version c.info index l) .nil)
      rw [if_neg Bool.false_ne_true, if_neg Bool.false_ne_true]
      cases c.info.internal with
      | true => exact rest [] _ r .nil
      | false =>
        rw [if_neg Bool.false_ne_true, if_neg Bool.false_ne_true]
        cases c.info.kind.isComposite with
        | true =>
          refine .after (tabulate c) fun table r => ?_
          exact .after (ofExcept _) fun l r => member table.1 l _ r
        | false => exact .after (ofExcept _) fun l r => member [] l _ r

/-- The name that a root's own table gets from a registry. -/
def ownName (r : Registry) (root : Setting) : TableName :=
  ⟨root.info.structName, r.count root.info.structName⟩

open Registering in
/-- Of the tables of a stamped composite only the last, its own, differs, and only in rows of
comments. -/
theorem restamps_tabulate (version : String) (info : Info) (cs : List Setting) (r : Registry) :
    SameUpTo (fun a a' => RestampsLast version (ownName r (group info cs)) a.1 a'.1)
      ((tabulate (group info cs)).runFrom r)
      ((tabulate (group info (cs.map (stampEntry version)))).runFrom r) := by
  have hname : (TableName.allocate info.structName).runFrom r =
      (.ok (ownName r (group info cs)), r.bump info.structName) := rfl
  have hfields : ∀ r, SameUpTo (fun _ _ => True)
      ((ofExcept (group info cs).fields).runFrom r)
      ((ofExcept (group info (cs.map (stampEntry version))).fields).runFrom r) := fun r => by
    rw [fields, fields]
    cases info.kind.isComposite with
    | true => exact .ok trivial
    | false => exact .error
  rw [tabulate, tabulate, runFrom_bind, runFrom_bind, hname]
  refine .bind (hfields _) fun r _ => ?_
  refine .bind (restamps_tabulateAll version cs 0 r) fun {a a'} r h => .ok ?_
  rw [h.1]
  exact .last rfl ⟨rfl, rfl, h.2⟩

/-- The same is true of the tables of a stamped root. -/
theorem restamps_tables (version : String) (root : Setting) (r : Registry) :
    Registering.SameUpTo (RestampsLast version (ownName r root)) (root.tables.runFrom r)
      ((root.stamp version).tables.runFrom r) := by
  cases root with
  | leaf info value =>
    rw [stamp, tables]
    split
    · simp only [tabulate, Registering.runFrom_bind]
      exact .error
    · exact .error
  | group info cs =>
    rw [stamp, tables, tables]
    by_cases hkind : info.kind = .struct
    · rw [info_group, info_group, if_pos hkind, if_pos hkind]
      exact .bind (restamps_tabulate version info cs r) fun r h => .ok h
    · rw [info_group, info_group, if_neg hkind, if_neg hkind]
      exact .error

/-! ## All passes -/

/-- What a version stamped into a root leaves as it is : the definitions with the registry after
them, or the fault ; the documentation, or the fault ; and the tables with the registry after
them, or the fault, but for the comments in the rows without storage of the root's own table,
which is the last. -/
structure ConfinesStamp (version : String) (root : Setting) : Prop where
  structs : ∀ r, (root.stamp version).structDefs.runFrom r = root.structDefs.runFrom r
  tables : ∀ r, Registering.SameUpTo (RestampsLast version (ownName r root))
    (root.tables.runFrom r) ((root.stamp version).tables.runFrom r)
  text : ∀ width, Docs.renderText width (root.stamp version) = Docs.renderText width root
  html : ∀ width, Docs.renderHtml width (root.stamp version) = Docs.renderHtml width root

/-- A stamped version changes comments in the root's own table and nothing else that is
generated. -/
theorem confinesStamp (version : String) (root : Setting) : ConfinesStamp version root where
  structs r := by rw [structDefs_stamp]
  tables := restamps_tables version root
  text width := by rw [Docs.renderText, Docs.renderText, Docs.render, Docs.render, outline_stamp]
  html width := by rw [Docs.renderHtml, Docs.renderHtml, Docs.render, Docs.render, outline_stamp]

end Setting

end SettingsCompiler
