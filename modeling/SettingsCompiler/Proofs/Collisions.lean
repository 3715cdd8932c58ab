import SettingsCompiler.Proofs.Identifiers

/-!
# Collisions of identifiers

The check of a composite and the definition made from it go through its settings on their own :
the check through the identifiers that each setting contributes, the definition through its
members. They agree setting by setting, the parsed form of a color included, so what is checked
is what is emitted (`forall₂_idents`).

The check stops at the first identifier that is one of those in front of it (`RepeatsFirst`). It
blames the setting that contributes it there, and the first setting that contributes it at all
(`contributor?`). `checkIdentifiers_eq_error_iff` says that it fails so and in no other way, and
`checksMembers` says both of a setting.
-/

namespace SettingsCompiler.Setting

open Header

/-! ## The first repetition in a list -/

/-- Where lists put together are cut in front of an element, one of them is. -/
theorem flatMap_eq_append_cons_iff {α β : Type} {f : α → List β} {y : β} {zs : List β} :
    ∀ {l : List α} {ys : List β}, l.flatMap f = ys ++ y :: zs ↔
      ∃ before a after us vs, l = before ++ a :: after ∧ f a = us ++ y :: vs ∧
        ys = before.flatMap f ++ us ∧ zs = vs ++ after.flatMap f
  | [], ys => by simp
  | a :: l, ys => by
    constructor
    · intro h
      rw [List.flatMap_cons] at h
      have later {ys' : List β} (hys : ys = f a ++ ys') (h : l.flatMap f = ys' ++ y :: zs) :
          ∃ before b after us vs, a :: l = before ++ b :: after ∧ f b = us ++ y :: vs ∧
            ys = before.flatMap f ++ us ∧ zs = vs ++ after.flatMap f := by
        obtain ⟨before, b, after, us, vs, rfl, hb, rfl, hzs⟩ := flatMap_eq_append_cons_iff.mp h
        exact ⟨a :: before, b, after, us, vs, rfl, hb, by simp [hys], hzs⟩
      rcases List.append_eq_append_iff.mp h with ⟨ys', hys, hl⟩ | ⟨vs, ha, hvs⟩
      · exact later hys hl
      · cases vs with
        | nil =>
          have hys : ys = f a ++ [] := by simp [ha]
          exact later hys hvs.symm
        | cons v vs =>
          obtain ⟨rfl, hzs⟩ := List.cons.inj hvs
          exact ⟨[], a, l, ys, vs, rfl, ha, rfl, hzs⟩
    · rintro ⟨before, b, after, us, vs, hl, hb, rfl, rfl⟩
      simp [hl, hb]

/-- An identifier is found to be repeated exactly if it was seen, or is one of those in front of
it, and these are distinct. -/
theorem firstRepeat_eq_some_iff {ident first second : String} :
    ∀ {l seen : List (String × String)}, (seen.map Prod.fst).Nodup →
      (firstRepeat seen l = some (ident, first, second) ↔
        ∃ before after, l = before ++ (ident, second) :: after ∧
          ((seen ++ before).map Prod.fst).Nodup ∧ (seen ++ before).lookup ident = some first)
  | [], seen, _ => by simp [firstRepeat]
  | (key, name) :: l, seen, hseen => by
    rw [firstRepeat]
    cases hkey : seen.lookup key with
    | some owner =>
      constructor
      · intro h
        obtain ⟨rfl, rfl, rfl⟩ : key = ident ∧ owner = first ∧ name = second := by simpa using h
        exact ⟨[], l, rfl, by simpa using hseen, by simpa using hkey⟩
      · rintro ⟨before, after, hl, hnodup, hlookup⟩
        cases before with
        | nil =>
          obtain ⟨⟨rfl, rfl⟩, -⟩ : (key = ident ∧ name = second) ∧ l = after := by simpa using hl
          rw [List.append_nil, hkey] at hlookup
          simpa using hlookup
        | cons p before =>
          -- The key is among those seen, so these and the list are not distinct.
          obtain ⟨rfl, -⟩ := List.cons.inj hl
          obtain ⟨l₁, l₂, rfl, -⟩ := List.lookup_eq_some_iff.mp hkey
          simp [List.nodup_append] at hnodup
    | none =>
      have hfresh : ((seen ++ [(key, name)]).map Prod.fst).Nodup := by
        rw [List.lookup_eq_none_iff] at hkey
        rw [List.map_append, List.nodup_append]
        refine ⟨hseen, List.nodup_singleton _, fun k hk k' hk' hsame => ?_⟩
        obtain ⟨p, hp, rfl⟩ := List.mem_map.mp hk
        have hne := hkey p hp
        simp [hsame, List.mem_singleton.mp hk'] at hne
      dsimp only
      rw [firstRepeat_eq_some_iff hfresh]
      constructor
      · rintro ⟨before, after, rfl, hnodup, hlookup⟩
        rw [← List.append_cons] at hnodup hlookup
        exact ⟨(key, name) :: before, after, rfl, hnodup, hlookup⟩
      · rintro ⟨before, after, hl, hnodup, hlookup⟩
        cases before with
        | nil =>
          obtain ⟨⟨rfl, rfl⟩, -⟩ : (key = ident ∧ name = second) ∧ l = after := by simpa using hl
          rw [List.append_nil, hkey] at hlookup
          cases hlookup
        | cons p before =>
          obtain ⟨rfl, rfl⟩ := List.cons.inj hl
          rw [List.append_cons] at hnodup hlookup
          exact ⟨before, after, rfl, hnodup, hlookup⟩

/-! ## The settings to blame -/

/-- The first setting of a list that contributes an identifier. -/
def contributor? (cs : List Setting) (ident : String) : Option Setting :=
  cs.find? fun c => c.memberIdents.contains ident

/-- The identifiers of a list of settings up to some place are distinct, and `ident`, which `c`
contributes at this place, is one of them. -/
def RepeatsFirst (cs : List Setting) (ident : String) (c : Setting) : Prop :=
  ∃ before after idents more, cs = before ++ c :: after ∧
    c.memberIdents = idents ++ ident :: more ∧
    (before.flatMap memberIdents ++ idents).Nodup ∧
    ident ∈ before.flatMap memberIdents ++ idents

theorem lookup_map_pair (l : List String) (name ident : String) :
    (l.map fun i => (i, name)).lookup ident = if l.contains ident then some name else none := by
  induction l with
  | nil => rfl
  | cons i l ih =>
    rw [List.map_cons, List.lookup_cons, ih, List.contains_cons]
    cases hi : ident == i <;> simp

/-- The name that comes with an identifier first is that of its first contributor. -/
theorem lookup_identsOf (ident : String) (cs : List Setting) :
    (identsOf cs).lookup ident = (contributor? cs ident).map fun c => c.info.name := by
  induction cs with
  | nil => rfl
  | cons c cs ih =>
    rw [identsOf] at ih
    rw [identsOf, List.flatMap_cons, List.lookup_append, lookup_map_pair, ih, contributor?,
      contributor?, List.find?_cons]
    cases c.memberIdents.contains ident <;> simp

theorem exists_lookup_iff {l : List (String × String)} {ident : String} :
    (∃ name, l.lookup ident = some name) ↔ ident ∈ l.map Prod.fst := by
  rw [← Option.isSome_iff_exists, ← Option.ne_none_iff_isSome, ne_eq, List.lookup_eq_none_iff]
  simp

/-- The identifiers in front of one that `c` contributes, with their settings. -/
theorem map_fst_cut (before : List Setting) (c : Setting) (idents : List String) :
    (identsOf before ++ idents.map fun i => (i, c.info.name)).map Prod.fst =
      before.flatMap memberIdents ++ idents := by
  rw [List.map_append, map_fst_identsOf, List.map_map]
  exact congrArg _ (List.map_id idents)

/-- A place among the identifiers of a list is one among those that one of its settings
contributes. -/
theorem identsOf_eq_append_cons_iff {cs : List Setting} {ident name : String}
    {front : List (String × String)} :
    (∃ back, identsOf cs = front ++ (ident, name) :: back) ↔
      ∃ before c after idents more, cs = before ++ c :: after ∧
        c.memberIdents = idents ++ ident :: more ∧ name = c.info.name ∧
        front = identsOf before ++ idents.map fun i => (i, c.info.name) := by
  simp only [identsOf, flatMap_eq_append_cons_iff]
  constructor
  · rintro ⟨back, before, c, after, us, vs, hcs, hc, hfront, -⟩
    obtain ⟨idents, rest, hidents, rfl, hrest⟩ := List.map_eq_append_iff.mp hc
    obtain ⟨i, more, rfl, hi, -⟩ := List.map_eq_cons_iff.mp hrest
    obtain ⟨rfl, rfl⟩ := Prod.mk.inj hi
    exact ⟨before, c, after, idents, more, hcs, hidents, rfl, hfront⟩
  · rintro ⟨before, c, after, idents, more, hcs, hidents, rfl, hfront⟩
    exact ⟨_, before, c, after, _, more.map fun i => (i, c.info.name), hcs,
      by rw [hidents, List.map_append, List.map_cons], hfront, rfl⟩

/-- What the check finds : the first repetition, and the names of the settings to blame for it. -/
theorem firstRepeat_identsOf_iff {cs : List Setting} {ident first second : String} :
    firstRepeat [] (identsOf cs) = some (ident, first, second) ↔
      ∃ c d, RepeatsFirst cs ident c ∧ contributor? cs ident = some d ∧
        first = d.info.name ∧ second = c.info.name := by
  have hnil : (([] : List (String × String)).map Prod.fst).Nodup := List.nodup_nil
  have hwhole {front back : List (String × String)} {name first : String}
      (hcut : identsOf cs = front ++ (ident, name) :: back) (h : front.lookup ident = some first) :
      (contributor? cs ident).map (fun d => d.info.name) = some first := by
    rw [← lookup_identsOf, hcut, List.lookup_append, h]
    rfl
  simp only [firstRepeat_eq_some_iff hnil, List.nil_append]
  constructor
  · rintro ⟨front, back, hcut, hnodup, hlookup⟩
    obtain ⟨d, hd, hfirst⟩ := Option.map_eq_some_iff.mp (hwhole hcut hlookup)
    obtain ⟨before, c, after, idents, more, hcs, hidents, hsecond, rfl⟩ :=
      identsOf_eq_append_cons_iff.mp ⟨back, hcut⟩
    have hmem := exists_lookup_iff.mp ⟨first, hlookup⟩
    rw [map_fst_cut] at hnodup hmem
    exact ⟨c, d, ⟨before, after, idents, more, hcs, hidents, hnodup, hmem⟩, hd, hfirst.symm,
      hsecond⟩
  · rintro ⟨c, d, ⟨before, after, idents, more, hcs, hidents, hnodup, hmem⟩, hd, rfl, rfl⟩
    obtain ⟨back, hcut⟩ := identsOf_eq_append_cons_iff.mpr
      ⟨before, c, after, idents, more, hcs, hidents, rfl, rfl⟩
    rw [← map_fst_cut before c] at hnodup hmem
    obtain ⟨first, hlookup⟩ := exists_lookup_iff.mpr hmem
    have hfirst := hwhole hcut hlookup
    rw [hd, Option.map_some] at hfirst
    exact ⟨_, back, hcut, hnodup, hlookup.trans hfirst.symm⟩

/-! ## The check of a composite -/

theorem checkIdentifiers_eq {s : Setting} {cs : List Setting} (h : s.fields = .ok cs) :
    s.checkIdentifiers = checkIdents s.info cs := by
  rw [checkIdentifiers, h]

/-- The check of a composite fails exactly if its settings contribute an identifier twice. -/
theorem exists_checkIdentifiers_error_iff {s : Setting} {cs : List Setting}
    (h : s.fields = .ok cs) :
    (∃ e, s.checkIdentifiers = .error e) ↔ ¬(cs.flatMap memberIdents).Nodup := by
  rw [← firstRepeat_nil_eq_none_iff, checkIdentifiers_eq h, checkIdents]
  cases hrepeat : firstRepeat [] (identsOf cs) <;> simp_all

/-- The check of a composite fails with the first repetition and the names of the settings to
blame, and in no other way. -/
theorem checkIdentifiers_eq_error_iff {s : Setting} {cs : List Setting} (h : s.fields = .ok cs)
    (e : Fault) : s.checkIdentifiers = .error e ↔ ∃ ident c d, RepeatsFirst cs ident c ∧
      contributor? cs ident = some d ∧
      e = .duplicateIdent s.info.structName d.info.name c.info.name ident := by
  have hrepeat : s.checkIdentifiers = .error e ↔ ∃ ident first second,
      firstRepeat [] (identsOf cs) = some (ident, first, second) ∧
      e = .duplicateIdent s.info.structName first second ident := by
    rw [checkIdentifiers_eq h, checkIdents]
    rcases firstRepeat [] (identsOf cs) with _ | ⟨ident, first, second⟩ <;> simp [eq_comm]
  simp only [hrepeat, firstRepeat_identsOf_iff]
  constructor
  · rintro ⟨ident, first, second, ⟨c, d, hc, hd, rfl, rfl⟩, rfl⟩
    exact ⟨ident, c, d, hc, hd, rfl⟩
  · rintro ⟨ident, c, d, hc, hd, rfl⟩
    exact ⟨ident, _, _, ⟨c, d, hc, hd, rfl, rfl⟩, rfl⟩

/-! ## What is emitted -/

/-- A definition has the identifiers that the settings of its origin contribute. -/
theorem Origin.idents_definition (o : Origin) :
    o.definition.idents = o.setting.children.flatMap memberIdents := by
  rw [StructDef.idents, Origin.definition, StructDef.of, map_ident_flatMap_membersOf]

/-- A definition is made from a composite in the tree of the root, has the identifiers that its
settings contribute, in order, and has none of them twice. -/
structure CoveredBy (root : Setting) (o : Origin) (d : StructDef) : Prop where
  within : Within root o.setting
  definition : d = o.definition
  idents : d.idents = o.setting.children.flatMap memberIdents
  nodup : d.idents.Nodup

/-- Each definition of a root is covered by the check of its origin. -/
theorem forall₂_coveredBy {root : Setting} {r r' : Registry} {ds : List StructDef}
    (h : root.structDefs.runFrom r = (.ok ds, r')) :
    List.Forall₂ (CoveredBy root) (origins [] r root).1 ds := by
  obtain ⟨hkind, rfl, -⟩ := structDefs_ok h
  rw [structDefs, if_pos hkind] at h
  rw [List.forall₂_map_right_iff, List.forall₂_same]
  refine fun o ho => ⟨within_of_mem_origins root ho, rfl, o.idents_definition, ?_⟩
  rw [o.idents_definition]
  exact nodup_of_define root [] h o ho

/-- What the check of identifiers covers. The definitions made for a setting as a root are those
of its origins, with the identifiers that these contribute and none of them twice. As a composite
with the settings `cs` it fails the check iff they contribute an identifier twice, and then with
the first repetition of one, the setting that repeats it and the first that contributes it. -/
structure ChecksMembers (s : Setting) : Prop where
  emitted : ∀ r r' ds, s.structDefs.runFrom r = (.ok ds, r') →
    List.Forall₂ (CoveredBy s) (origins [] r s).1 ds
  fails_iff : ∀ cs, s.fields = .ok cs →
    ((∃ e, s.checkIdentifiers = .error e) ↔ ¬(cs.flatMap memberIdents).Nodup)
  error_iff : ∀ cs, s.fields = .ok cs → ∀ e, s.checkIdentifiers = .error e ↔
    ∃ ident c d, RepeatsFirst cs ident c ∧ contributor? cs ident = some d ∧
      e = .duplicateIdent s.info.structName d.info.name c.info.name ident

/-- What is checked is what is emitted, for every setting : members and identifiers agree in
success, and a failure names the first repetition. -/
theorem checksMembers (s : Setting) : ChecksMembers s where
  emitted _ _ _ h := forall₂_coveredBy h
  fails_iff _ h := exists_checkIdentifiers_error_iff h
  error_iff _ h := checkIdentifiers_eq_error_iff h

/-- A root with a color in a struct of its own, and a string that has the name of the color's
parsed form in another. -/
def tinted : Setting :=
  .makeGroup "Prefs" .struct [
    .makeGroup "Theme" .struct [.make "Text" .color .null "", .make "Zoom" .int .null ""] "",
    .make "TextParsed" .string .null ""] ""

/-- The same settings in one struct. -/
def stained : Setting :=
  .makeGroup "Theme" .struct [.make "Zoom" .int .null "", .make "Text" .color .null "",
    .make "TextParsed" .string .null "", .make "zoom" .int .null ""] ""

/-- The identifier `textParsed` may stand in two structs, but not come twice in one, once from a
color and once from a string. -/
theorem checksMembers_tinted :
    (∃ ds r, tinted.structDefs.runFrom .empty = (.ok ds, r) ∧
      List.Forall₂ (CoveredBy tinted) (origins [] .empty tinted).1 ds ∧
      ds.map StructDef.idents = [["text", "textParsed", "zoom"], ["theme", "textParsed"]]) ∧
    stained.checkIdentifiers = .error (.duplicateIdent "Theme" "Text" "TextParsed" "textParsed") ∧
    ∃ c, RepeatsFirst stained.children "textParsed" c ∧ c.info.name = "TextParsed" := by
  have hrun : tinted.structDefs.runFrom .empty = (.ok _, _) := rfl
  refine ⟨⟨_, _, hrun, (checksMembers tinted).emitted _ _ _ hrun, rfl⟩, rfl, ?_⟩
  obtain ⟨ident, c, d, hc, -, he⟩ :=
    ((checksMembers stained).error_iff stained.children rfl _).mp rfl
  obtain ⟨-, -, hname, rfl⟩ := Fault.duplicateIdent.inj he
  exact ⟨c, hc, hname.symm⟩

end SettingsCompiler.Setting
