import SettingsCompiler.Proofs.Layout

/-!
# Parity of tables and structs

Every visible composite has a table, but a struct is defined at the first owner of a name
only, so one definition serves the tables of many sites. A table agrees with a definition
if its positions are those of members with the identifiers of its rows (`AgreesWith`).

The pass over the structs compares names and never shapes. Whether a table and a definition
agree is thus a question about two composites, the site of the table and the origin of the
definition : they do exactly if the one fits into the other (`Describes.agreesWith_iff`).
Composites with the same identifiers fit (`fitsInto_of_memberIdents_eq`) ; sites of one
name with different settings do not (`not_layoutParity_reused`).
-/

namespace SettingsCompiler

namespace Header

/-- Every position in the table is that of a member with the identifier of the row. -/
def Table.AgreesWith (t : Table) (d : StructDef) : Prop :=
  ∀ row ∈ t.rows, ∀ ident index, row.offset = .member ident index →
    ∃ m, d.members[index]? = some m ∧ m.ident = ident

/-- The tables of a header agree with its definitions of their structs. -/
def LayoutParity (h : Header) : Prop :=
  ∀ t ∈ h.tables, ∀ d ∈ h.structs, d.name = t.structName → t.AgreesWith d

end Header

namespace Setting

open Header

/-! ## One table and one definition -/

/-- Where `x` stores a setting, the struct of `y` has a member of that identifier. -/
def FitsInto (x y : Setting) : Prop :=
  ∀ e ∈ stored x.children, ∃ m,
    (y.children.flatMap fun c => membersOf c.info)[slot x.children e.2]? = some m ∧
      m.ident = e.1.info.ident

theorem map_ident_membersOf (c : Setting) :
    (membersOf c.info).map Member.ident = c.memberIdents := by
  unfold membersOf memberIdents
  cases c.info.kind <;> rfl

/-- The members of a struct have the identifiers that its settings contribute. -/
theorem map_ident_flatMap_membersOf (cs : List Setting) :
    (cs.flatMap fun c => membersOf c.info).map Member.ident = cs.flatMap memberIdents := by
  rw [List.map_flatMap]
  exact congrArg (List.flatMap · cs) (funext map_ident_membersOf)

/-- A composite fits into every other with the same identifiers. -/
theorem fitsInto_of_memberIdents_eq {x y : Setting}
    (h : x.children.flatMap memberIdents = y.children.flatMap memberIdents) : x.FitsInto y := by
  rintro ⟨c, i⟩ he
  obtain ⟨hc, hcom, -⟩ := mem_stored_iff.mp he
  have hident := congrArg (Option.map Member.ident) (getElem?_slot hc hcom)
  rw [← List.getElem?_map, map_ident_flatMap_membersOf, h, ← map_ident_flatMap_membersOf,
    List.getElem?_map] at hident
  exact Option.map_eq_some_iff.mp hident

theorem forall_mem_congr {α β : Type} {R : α → β → Prop} {P : α → Prop} {Q : β → Prop}
    (hR : ∀ {a b}, R a b → (P a ↔ Q b)) {l : List α} {l' : List β} (h : List.Forall₂ R l l') :
    (∀ a ∈ l, P a) ↔ ∀ b ∈ l', Q b := by
  induction h with
  | nil => simp
  | cons hab _ ih => rw [List.forall_mem_cons, List.forall_mem_cons, hR hab, ih]

/-- A table and a definition agree exactly if the site fits into the origin. -/
theorem Describes.agreesWith_iff {names : List Nat → String → TableName} {site : Site}
    {t : Table} (h : Describes names site t) (o : Origin) :
    t.AgreesWith o.definition ↔ site.setting.FitsInto o.setting := by
  have hrows : (∀ e ∈ stored site.setting.children, ∃ m,
        o.definition.members[slot site.setting.children e.2]? = some m ∧
          m.ident = e.1.info.ident) ↔
      ∀ row ∈ t.rows.filter fun row => row.index?.isSome, ∀ ident index,
        row.offset = .member ident index →
          ∃ m, o.definition.members[index]? = some m ∧ m.ident = ident := by
    refine forall_mem_congr (fun {e row} hrow => ?_) h.forall₂_stored
    rw [hrow.1]
    simp
  refine Iff.trans ?_ hrows.symm
  refine forall_congr' fun row => ⟨fun hagree hrow => hagree (List.mem_of_mem_filter hrow), ?_⟩
  intro hagree hrow ident index hoffset
  refine hagree (List.mem_filter.mpr ⟨hrow, ?_⟩) ident index hoffset
  rw [Row.index?, hoffset]
  rfl

end Setting

namespace Header

open Setting

/-! ## The whole header -/

/-- The tables of a header describe the visible composites of its roots. -/
theorem tables_of_compileFrom : ∀ (roots : List Setting) {rs : Registries} {h : Header},
    compileFrom rs roots = .ok h →
    List.Forall₂ (fun site t => ∃ names, Describes names site t) (roots.flatMap postorder)
      h.tables
  | [], rs, h, hc => by
    rw [← Except.ok.inj hc]
    exact .nil
  | root :: roots, rs, h, hc => by
    obtain ⟨structs, inStructs, tables, inTables, rest, -, htables, hrest, rfl⟩ :=
      compileFrom_cons_ok hc
    exact List.rel_append ((describes_of_tables htables).imp fun _ _ hd => ⟨_, hd⟩)
      (tables_of_compileFrom roots hrest)

/-- One name for margins with different settings. -/
def reused : Setting :=
  .makeGroup "Prefs" .struct [
    .makeGroup "FixedPage" .struct [.makeGroup "Margin" .compact [.make "Top" .int .null ""] ""] "",
    .makeGroup "ComicBook" .struct
      [.makeGroup "Margin" .compact [.make "Left" .int .null ""] ""] ""] ""

/-- The second of two sites of a name has a table of its own settings, while the struct is
that of the first. -/
theorem not_layoutParity_reused : ∃ h, compile [reused] = .ok h ∧ ¬h.LayoutParity := by
  refine ⟨_, rfl, fun hparity => ?_⟩
  obtain ⟨m, hm, hident⟩ := hparity
    ⟨⟨"Margin", 1⟩, "Margin", [⟨.member "left" 0, .int, .null, "Left"⟩]⟩ (by decide)
    ⟨"Margin", "", [⟨some "", "int", "top"⟩]⟩ (by decide) rfl _ (.head _) "left" 0 rfl
  obtain rfl := Option.some.inj hm
  revert hident
  decide

/-- Where the tables of a header agree with its definitions : a table and a definition do
exactly if the site of the table fits into the origin of the definition, and always if both
have the same identifiers. -/
structure AgreesBySite (roots : List Setting) (h : Header) : Prop where
  structs : h.structs = (allOrigins roots).map Origin.definition
  tables : List.Forall₂ (fun site t => t.structName = site.structName ∧
      ∀ o ∈ allOrigins roots, (t.AgreesWith o.definition ↔ site.setting.FitsInto o.setting) ∧
        (site.setting.children.flatMap memberIdents = o.setting.children.flatMap memberIdents →
          t.AgreesWith o.definition))
    (roots.flatMap postorder) h.tables
  parity : h.LayoutParity ↔ ∀ root ∈ roots, ∀ path x, Visible root path x →
    ∀ o ∈ allOrigins roots, o.setting.info.structName = x.info.structName →
      x.FitsInto o.setting

/-- In every header that compiles, whether a table agrees with a definition is settled by the
site of the one and the origin of the other. -/
theorem agreesBySite {roots : List Setting} {h : Header} (hc : compile roots = .ok h) :
    AgreesBySite roots h where
  structs := structs_of_compileFrom roots hc
  tables := by
    refine (tables_of_compileFrom roots hc).imp fun site t ⟨names, hd⟩ => ?_
    refine ⟨hd.structName, fun o _ => ⟨hd.agreesWith_iff o, fun hidents => ?_⟩⟩
    exact (hd.agreesWith_iff o).mpr (fitsInto_of_memberIdents_eq hidents)
  parity := by
    have hsites : (∀ site ∈ roots.flatMap postorder, ∀ o ∈ allOrigins roots,
          o.setting.info.structName = site.structName → site.setting.FitsInto o.setting) ↔
        ∀ t ∈ h.tables, ∀ o ∈ allOrigins roots, o.definition.name = t.structName →
          t.AgreesWith o.definition := by
      refine forall_mem_congr (fun {site t} ⟨names, hd⟩ => ?_) (tables_of_compileFrom roots hc)
      rw [hd.structName]
      exact forall₂_congr fun o _ => imp_congr_right fun _ => (hd.agreesWith_iff o).symm
    rw [LayoutParity, structs_of_compileFrom roots hc]
    simp only [List.forall_mem_map]
    refine hsites.symm.trans ?_
    constructor
    · intro hfits root hroot path x hx
      exact hfits ⟨path, x⟩ (List.mem_flatMap.mpr ⟨root, hroot, mem_postorder_iff.mpr hx⟩)
    · intro hfits site hsite
      obtain ⟨root, hroot, hmem⟩ := List.mem_flatMap.mp hsite
      exact hfits root hroot site.path site.setting (mem_postorder_iff.mp hmem)

/-- The second margin of `pages` has its table agree with the struct of the first. -/
theorem agreesBySite_pages :
    ∃ h, compile [pages] = .ok h ∧ AgreesBySite [pages] h ∧
      ∃ t d, h.tables[2]? = some t ∧ h.structs[0]? = some d ∧ t.AgreesWith d := by
  have hagrees : AgreesBySite [pages] _ := agreesBySite rfl
  refine ⟨_, rfl, hagrees, _, _, rfl, rfl, ?_⟩
  have hsecond := hagrees.tables.get (i := 2) (by decide) (by decide)
  exact (hsecond.2 _ (.head _)).2 rfl

end Header
end SettingsCompiler
