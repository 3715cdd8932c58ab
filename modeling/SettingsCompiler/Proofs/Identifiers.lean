import SettingsCompiler.Proofs.Parity
import SettingsCompiler.Proofs.Progress
import SettingsCompiler.Proofs.Uniqueness

/-!
# Repeated identifiers

The pass over the structs checks identifiers before it makes a definition, and only then : the
composites it checks are the origins of the definitions. So a repeated identifier in an origin
is reported (`nodup_of_define`), and nothing else is wrong with a sound tree
(`clashes_of_origin_of_define_error`) : sound roots compile exactly if no origin repeats an
identifier.

Tables are made for all visible composites, origins or not. A table has the identifiers of the
settings that its composite stores (`Describes.idents`). They are distinct if the composite
fits into an origin (`FitsInto.nodup`), as all do where every visible composite owns its struct
and composites of one name have the same settings (`exists_origin_of_visible`). A composite
that only refers to a struct may repeat an identifier (`not_nodup_idents_doubled`).
-/

namespace SettingsCompiler

namespace Header

/-- The identifier of the member that a row refers to. -/
def Row.ident? (row : Row) : Option String :=
  match row.offset with
  | .member ident _ => some ident
  | .noStorage => none

/-- The identifiers of the members that a table refers to. -/
def Table.idents (t : Table) : List String :=
  t.rows.filterMap Row.ident?

/-- The identifiers of the members of a struct. -/
def StructDef.idents (d : StructDef) : List String :=
  d.members.map Member.ident

end Header

namespace Setting

open Header

/-! ## The check -/

/-- The identifiers in the struct of a composite. -/
def idents (s : Setting) : List String :=
  s.children.flatMap memberIdents

theorem map_fst_identsOf (cs : List Setting) :
    (identsOf cs).map Prod.fst = cs.flatMap memberIdents := by
  rw [identsOf, List.map_flatMap]
  refine congrArg (List.flatMap · cs) (funext fun c => ?_)
  rw [List.map_map]
  exact List.map_id _

/-- No identifier is found to be repeated exactly if they are distinct and none was seen. -/
theorem firstRepeat_eq_none_iff : ∀ {l seen : List (String × String)},
    firstRepeat seen l = none ↔ (l.map Prod.fst).Nodup ∧ ∀ p ∈ l, seen.lookup p.1 = none
  | [], seen => by simp [firstRepeat]
  | (ident, name) :: l, seen => by
    rw [firstRepeat]
    cases hseen : seen.lookup ident with
    | some first =>
      refine iff_of_false (Option.some_ne_none _) fun h => ?_
      rw [h.2 _ List.mem_cons_self] at hseen
      cases hseen
    | none =>
      have hlookup (k : String) :
          (seen ++ [(ident, name)]).lookup k = none ↔ seen.lookup k = none ∧ k ≠ ident := by
        simp [List.lookup_eq_none_iff, or_imp, forall_and]
      simp only [firstRepeat_eq_none_iff, hlookup, List.map_cons, List.nodup_cons, List.mem_map,
        List.forall_mem_cons, hseen, true_and]
      constructor
      · rintro ⟨hnodup, hfree⟩
        refine ⟨⟨?_, hnodup⟩, fun p hp => (hfree p hp).1⟩
        rintro ⟨p, hp, heq⟩
        exact (hfree p hp).2 heq
      · rintro ⟨⟨hnew, hnodup⟩, hfree⟩
        exact ⟨hnodup, fun p hp => ⟨hfree p hp, fun heq => hnew ⟨p, hp, heq⟩⟩⟩

/-- The check of a list finds nothing exactly if its identifiers are distinct. -/
theorem firstRepeat_nil_eq_none_iff {cs : List Setting} :
    firstRepeat [] (identsOf cs) = none ↔ (cs.flatMap memberIdents).Nodup := by
  rw [firstRepeat_eq_none_iff, map_fst_identsOf]
  simp

theorem nodup_of_checkIdentifiers {s : Setting} (h : s.checkIdentifiers = .ok ()) :
    s.idents.Nodup := by
  cases s with
  | leaf info value => cases h
  | group info cs =>
    rw [idents, ← firstRepeat_nil_eq_none_iff]
    cases hkind : info.kind.isComposite with
    | false => simp [checkIdentifiers, fields, hkind] at h
    | true =>
      simp only [checkIdentifiers, fields, hkind, if_true, checkIdents] at h
      split at h
      · assumption
      · cases h

theorem Clashes.not_nodup {x : Setting} {e : Fault} (h : x.Clashes e) : ¬x.idents.Nodup := by
  obtain ⟨ident, first, second, hrepeat, -⟩ := h
  rw [idents, ← firstRepeat_nil_eq_none_iff, hrepeat]
  exact Option.some_ne_none _

/-! ## Which composites are checked -/

/-- The origins for one setting of a list, and the registry behind it. -/
def originsOf (around : List Setting) (r : Registry) (c : Setting) : List Origin × Registry :=
  if c.isOwner && !r.contains c.info.name then
    origins (c :: around) (r.bump c.info.name) c
  else ([], r)

theorem originsAll_cons (around : List Setting) (r : Registry) (c : Setting)
    (cs : List Setting) :
    originsAll around r (c :: cs) =
      ((originsOf around r c).1 ++ (originsAll around (originsOf around r c).2 cs).1,
        (originsAll around (originsOf around r c).2 cs).2) := by
  rw [originsAll, originsOf]

/-- An owning composite whose name is free is gone into. -/
theorem originsOf_of_defines {c : Setting} {r : Registry} (howner : c.isOwner = true)
    (hfree : r.contains c.info.name = false) (around : List Setting) :
    originsOf around r c = origins (c :: around) (r.bump c.info.name) c := by
  simp [originsOf, howner, hfree]

/-- No other setting has an origin or changes the registry. -/
theorem originsOf_of_refers {c : Setting} {r : Registry}
    (h : c.isOwner = true → r.contains c.info.name = true) (around : List Setting) :
    originsOf around r c = ([], r) := by
  rw [originsOf, if_neg]
  simpa using h

theorem Emits.registry {c : Setting} {r r₁ : Registry} {own : List StructDef}
    (h : Emits c r own r₁) (around : List Setting) : (originsOf around r c).2 = r₁ := by
  cases h with
  | defines howner hfree hrun =>
    rw [originsOf_of_defines howner hfree]
    exact (define_ok c _ hrun).2.symm
  | refers hr => rw [originsOf_of_refers hr]

mutual

/-- Every composite that a definition is made from has passed the check. -/
theorem nodup_of_define : ∀ (s : Setting) (around : List Setting) {r r' : Registry}
    {ds : List StructDef}, (define s).runFrom r = (.ok ds, r') →
    ∀ o ∈ (origins around r s).1, o.setting.idents.Nodup
  | leaf info value, _, _, _, _, h => absurd h define_leaf_ne_ok
  | group info cs, around, r, r', ds, h => by
    obtain ⟨inside, hcs, -⟩ := define_group_ok h
    rw [define] at h
    obtain ⟨_, r₁, hcheck, -⟩ := Registering.runFrom_bind_ok.mp h
    rw [Registering.runFrom_ofExcept, Prod.mk.injEq] at hcheck
    rw [origins, List.forall_mem_append, List.forall_mem_singleton]
    exact ⟨nodup_of_defineAll cs around hcs, nodup_of_checkIdentifiers hcheck.1⟩

theorem nodup_of_defineAll : ∀ (cs around : List Setting) {r r' : Registry}
    {ds : List StructDef}, (defineAll cs).runFrom r = (.ok ds, r') →
    ∀ o ∈ (originsAll around r cs).1, o.setting.idents.Nodup
  | [], _, _, _, _, _ => by simp [originsAll]
  | c :: cs, around, r, r', ds, h => by
    obtain ⟨own, r₁, rest, hown, hrest, -⟩ := defineAll_cons_ok h
    rw [originsAll_cons, hown.registry, List.forall_mem_append]
    refine ⟨?_, nodup_of_defineAll cs around hrest⟩
    cases hown with
    | defines howner hfree hrun =>
      rw [originsOf_of_defines howner hfree]
      exact nodup_of_define c _ hrun
    | refers hr =>
      rw [originsOf_of_refers hr]
      exact fun o ho => absurd ho List.not_mem_nil

end

/-- A run over a sound list fails in the definition of its first setting or behind it. -/
theorem defineAll_cons_error {c : Setting} {cs : List Setting} (hs : c.IsSound)
    {r r' : Registry} {e : Fault} (h : (defineAll (c :: cs)).runFrom r = (.error e, r')) :
    (c.isOwner = true ∧ r.contains c.info.name = false ∧
      (define c).runFrom (r.bump c.info.name) = (.error e, r')) ∨
    ∃ own r₁, Emits c r own r₁ ∧ (defineAll cs).runFrom r₁ = (.error e, r') := by
  have rest {own : List StructDef} {r₁ : Registry} (hown : Emits c r own r₁)
      (h : (defineAll cs >>= fun ds => pure (own ++ ds) :
        Registering Fault (List StructDef)).runFrom r₁ = (.error e, r')) :
      ∃ own r₁, Emits c r own r₁ ∧ (defineAll cs).runFrom r₁ = (.error e, r') := by
    obtain h | ⟨ds, r₂, -, h⟩ := Registering.runFrom_bind_error.mp h
    · exact ⟨own, r₁, hown, h⟩
    · simp at h
  rw [defineAll] at h
  split at h
  · next hcomp =>
    obtain h | ⟨known, r₁, hknown, h⟩ := Registering.runFrom_bind_error.mp h
    · simp at h
    · rw [Registering.runFrom_isRegistered, Prod.mk.injEq, Except.ok.injEq] at hknown
      obtain ⟨rfl, rfl⟩ := hknown
      split at h
      · next hdef =>
        rw [Bool.and_eq_true, Bool.not_eq_true'] at hdef
        have howner : c.isOwner = true := by rw [isOwner, hcomp, hdef.1]; rfl
        obtain h | ⟨_, r₂, hreg, h⟩ := Registering.runFrom_bind_error.mp h
        · simp at h
        · rw [Registering.runFrom_register, Prod.mk.injEq] at hreg
          obtain ⟨-, rfl⟩ := hreg
          obtain h | ⟨own, r₃, hown, h⟩ := Registering.runFrom_bind_error.mp h
          · exact .inl ⟨howner, hdef.2, h⟩
          · exact .inr (rest (.defines howner hdef.2 hown) h)
      · next hdef =>
        rw [fields_of_isWellFormed hs.isWellFormed hcomp] at h
        exact .inr (rest (.refers fun ho => by simp_all [isOwner]) h)
  · next hcomp => exact .inr (rest (.refers fun ho => by simp_all [isOwner]) h)

mutual

/-- The definitions for a sound composite fail only where one of its origins repeats an
identifier. -/
theorem clashes_of_origin_of_define_error : ∀ (s : Setting) (around : List Setting),
    s.IsSound → s.info.kind.isComposite = true → ∀ {r r' : Registry} {e : Fault},
    (define s).runFrom r = (.error e, r') → ∃ o ∈ (origins around r s).1, o.setting.Clashes e
  | leaf info value, _, hs, hcomp, _, _, _, _ => by
    cases fields_of_isWellFormed hs.isWellFormed hcomp
  | group info cs, around, hs, hcomp, r, r', e, h => by
    rw [define] at h
    rw [origins]
    obtain h | ⟨_, r₁, hcheck, h⟩ := Registering.runFrom_bind_error.mp h
    · rw [Registering.runFrom_ofExcept, Prod.mk.injEq] at h
      exact ⟨_, List.mem_append_right _ List.mem_cons_self,
        clashes_of_checkIdentifiers_error hs.isWellFormed hcomp h.1⟩
    · rw [Registering.runFrom_ofExcept, Prod.mk.injEq] at hcheck
      obtain ⟨-, rfl⟩ := hcheck
      obtain h | ⟨ds, r₂, hds, h⟩ := Registering.runFrom_bind_error.mp h
      · obtain ⟨o, ho, hclash⟩ :=
          clashes_of_origin_of_defineAll_error cs around (fun c hc => hs.child hc) h
        exact ⟨o, List.mem_append_left _ ho, hclash⟩
      · simp at h

/-- The definitions for a sound list fail only where an origin of its settings repeats an
identifier. -/
theorem clashes_of_origin_of_defineAll_error : ∀ (cs around : List Setting),
    (∀ c ∈ cs, c.IsSound) → ∀ {r r' : Registry} {e : Fault},
    (defineAll cs).runFrom r = (.error e, r') →
      ∃ o ∈ (originsAll around r cs).1, o.setting.Clashes e
  | [], _, _, _, _, _, h => by simp [defineAll] at h
  | c :: cs, around, hs, r, r', e, h => by
    obtain ⟨hc, hcs⟩ := List.forall_mem_cons.mp hs
    rw [originsAll_cons]
    obtain ⟨howner, hfree, herr⟩ | ⟨own, r₁, hown, herr⟩ := defineAll_cons_error hc h
    · rw [originsOf_of_defines howner hfree]
      have hcomp : c.info.kind.isComposite = true := (Bool.and_eq_true _ _ ▸ howner).1
      obtain ⟨o, ho, hclash⟩ := clashes_of_origin_of_define_error c (c :: around) hc hcomp herr
      exact ⟨o, List.mem_append_left _ ho, hclash⟩
    · rw [hown.registry]
      obtain ⟨o, ho, hclash⟩ := clashes_of_origin_of_defineAll_error cs around hcs herr
      exact ⟨o, List.mem_append_right _ ho, hclash⟩

end

mutual

/-- Behind a composite the owning composites inside its origins are registered. -/
theorem contains_of_mem_origins {c : Setting} (howner : c.isOwner = true) {o : Origin}
    (hc : c ∈ o.setting.children) : ∀ (s : Setting) {around : List Setting} {r : Registry},
    o ∈ (origins around r s).1 → (origins around r s).2.contains c.info.name = true
  | leaf info value, around, r, ho => by
    rw [origins, List.mem_singleton] at ho
    rw [ho] at hc
    cases hc
  | group info cs, around, r, ho => by
    rw [origins, List.mem_append, List.mem_singleton] at ho
    rcases ho with ho | rfl
    · exact contains_of_mem_originsAll howner hc cs ho
    · exact contains_of_isOwner howner around cs hc

theorem contains_of_mem_originsAll {c : Setting} (howner : c.isOwner = true) {o : Origin}
    (hc : c ∈ o.setting.children) : ∀ (cs : List Setting) {around : List Setting}
    {r : Registry}, o ∈ (originsAll around r cs).1 →
    (originsAll around r cs).2.contains c.info.name = true
  | [], _, _, ho => by simp [originsAll] at ho
  | d :: cs, around, r, ho => by
    rw [originsAll_cons, List.mem_append] at ho
    rw [originsAll_cons]
    rcases ho with ho | ho
    · refine contains_originsAll cs around ?_
      rw [originsOf] at ho ⊢
      split at ho
      · next hdef =>
        rw [if_pos hdef]
        exact contains_of_mem_origins howner hc d ho
      · cases ho
    · exact contains_of_mem_originsAll howner hc cs ho

end

/-! ## One table -/

/-- The identifiers of the settings that a composite stores. -/
def storedIdents (s : Setting) : List String :=
  (stored s.children).map fun e => e.1.info.ident

/-- A table refers to the settings that its composite stores. -/
theorem Describes.idents {names : List Nat → String → TableName} {site : Site} {t : Table}
    (h : Describes names site t) : t.idents = site.setting.storedIdents := by
  rw [storedIdents, ← filter_listed]
  refine filterMap_of_forall₂ (fun {e row} hrow => ?_) h.rows
  rw [Row.ident?, hrow.offset]
  cases e.1.isComment <;> rfl

/-- A composite that fits into one with distinct identifiers stores distinct ones. -/
theorem FitsInto.nodup {x y : Setting} (h : x.FitsInto y) (hy : y.idents.Nodup) :
    x.storedIdents.Nodup := by
  rw [storedIdents, List.Nodup, List.pairwise_map]
  refine (List.pairwise_map.mp (pairwise_slot_stored x.children)).imp_of_mem
    fun {e e'} he he' hlt hsame => ?_
  have hat {e : Setting × Nat} (he : e ∈ stored x.children) :
      y.idents[slot x.children e.2]? = some e.1.info.ident := by
    obtain ⟨m, hm, hident⟩ := h e he
    rw [Setting.idents, ← map_ident_flatMap_membersOf, List.getElem?_map, hm, Option.map_some,
      hident]
  have hlen := (List.getElem?_eq_some_iff.mp (hat he)).1
  have hslots := (List.getElem?_inj hlen hy).mp ((hat he).trans (hsame ▸ (hat he').symm))
  exact Nat.ne_of_lt hlt hslots

end Setting

namespace Header

open Setting

/-! ## All roots -/

/-- Every composite that a definition in a header is made from has distinct identifiers. -/
theorem nodup_of_compileFrom : ∀ (roots : List Setting) {rs : Registries} {h : Header},
    compileFrom rs roots = .ok h →
    ∀ o ∈ allOriginsFrom rs.structs roots, o.setting.idents.Nodup
  | [], _, _, _ => by simp [allOriginsFrom]
  | root :: roots, rs, h, hc => by
    obtain ⟨structs, inStructs, tables, inTables, rest, hstructs, -, hrest, -⟩ :=
      compileFrom_cons_ok hc
    obtain ⟨hkind, -, hin⟩ := structDefs_ok hstructs
    rw [structDefs, if_pos hkind] at hstructs
    rw [allOriginsFrom, List.forall_mem_append, ← hin]
    exact ⟨nodup_of_define root [] hstructs, nodup_of_compileFrom roots hrest⟩

/-- Sound roots fail to compile only where an origin repeats an identifier. -/
theorem clashes_of_compileFrom_error : ∀ (roots : List Setting),
    (∀ root ∈ roots, root.IsSound ∧ root.info.kind = .struct) → ∀ {rs : Registries} {e : Fault},
    compileFrom rs roots = .error e →
    ∃ o ∈ allOriginsFrom rs.structs roots, o.setting.Clashes e
  | [], _, _, _, hc => by cases hc
  | root :: roots, hs, rs, e, hc => by
    obtain ⟨⟨hsound, hkind⟩, hroots⟩ := List.forall_mem_cons.mp hs
    have hcomp : root.info.kind.isComposite = true := by rw [hkind]; rfl
    rw [allOriginsFrom]
    rw [compileFrom] at hc
    split at hc
    · next e' r' hstructs =>
      obtain rfl := Except.error.inj hc
      rw [structDefs, if_pos hkind] at hstructs
      obtain ⟨o, ho, hclash⟩ := clashes_of_origin_of_define_error root [] hsound hcomp hstructs
      exact ⟨o, List.mem_append_left _ ho, hclash⟩
    · next structs inStructs hstructs =>
      obtain ⟨ts, r', htables⟩ := (passesSound hsound).tables hkind rs.tables
      rw [htables] at hc
      dsimp only at hc
      split at hc
      · next e' hrest =>
        obtain rfl := Except.error.inj hc
        rw [← (structDefs_ok hstructs).2.2]
        obtain ⟨o, ho, hclash⟩ := clashes_of_compileFrom_error roots hroots hrest
        exact ⟨o, List.mem_append_right _ ho, hclash⟩
      · cases hc

theorem mem_allOriginsFrom_root {root : Setting} : ∀ {roots : List Setting} {r : Registry},
    root ∈ roots → ⟨root, []⟩ ∈ allOriginsFrom r roots
  | first :: roots, r, hroot => by
    rw [allOriginsFrom, List.mem_append]
    rcases List.mem_cons.mp hroot with rfl | hroot
    · exact .inl (mem_origins [] r root)
    · exact .inr (mem_allOriginsFrom_root hroot)

/-- An owning composite inside an origin has the name of an origin that owns it. -/
theorem exists_owner_of_mem_allOriginsFrom {c : Setting} (howner : c.isOwner = true)
    {o : Origin} (hc : c ∈ o.setting.children) : ∀ {roots : List Setting} {r : Registry}
    {made : List Origin}, AllAccounted made [] r → o ∈ allOriginsFrom r roots →
    ∃ o' ∈ made ++ allOriginsFrom r roots, o'.Owns c.info.name
  | root :: roots, r, made, hall, ho => by
    have hall' := (accounted_origins root hall).2
    rw [allOriginsFrom, List.mem_append] at ho
    rw [allOriginsFrom, ← List.append_assoc]
    rcases ho with ho | ho
    · obtain ⟨o', ho', howns⟩ | ⟨z, hz, -⟩ :=
        hall' _ (contains_of_mem_origins howner hc root ho)
      · exact ⟨o', List.mem_append_left _ ho', howns⟩
      · cases hz
    · exact exists_owner_of_mem_allOriginsFrom howner hc hall' ho

/-- Every visible composite below a root owns its struct, and owning composites of one name
have the same settings. -/
structure OwnsThroughout (roots : List Setting) : Prop where
  owner : ∀ root ∈ roots, ∀ path x, Visible root path x → ∀ c ∈ x.children, c.isTabled = true →
    c.ownsStruct = true
  same : ∀ x y, OwnerBelow roots x → OwnerBelow roots y → x.info.name = y.info.name →
    x.children = y.children

theorem within_of_visible {root x : Setting} {path : List Nat} (h : Visible root path x) :
    Within root x := by
  induction h with
  | root => exact .root
  | child _ hc _ ih => exact ih.child (List.mem_of_getElem? hc)

/-- The settings of a visible composite are in the tree of a child of the root. -/
theorem exists_within_of_visible {root x c : Setting} {path : List Nat}
    (hx : Visible root path x) (hc : c ∈ x.children) : ∃ d ∈ root.children, Within d c := by
  rcases within_iff.mp (within_of_visible hx) with rfl | ⟨d, hd, hin⟩
  · exact ⟨c, hc, .root⟩
  · exact ⟨d, hd, hin.child hc⟩

/-- Each visible composite has the settings of an origin. -/
theorem exists_origin_of_visible {roots : List Setting} (h : OwnsThroughout roots)
    {root x : Setting} (hroot : root ∈ roots) {path : List Nat} (hx : Visible root path x) :
    ∃ o ∈ allOrigins roots, o.setting.children = x.children := by
  induction hx with
  | root => exact ⟨⟨root, []⟩, mem_allOriginsFrom_root hroot, rfl⟩
  | @child path x c i hx hget htabled ih =>
    obtain ⟨o, ho, hsame⟩ := ih
    have hc := List.mem_of_getElem? hget
    have howner : c.isOwner = true := by
      rw [isTabled, Bool.and_eq_true] at htabled
      rw [isOwner, htabled.2, h.owner root hroot path x hx c hc (by simp [isTabled, htabled])]
      rfl
    have hbelow : OwnerBelow roots c := ⟨howner, root, hroot, exists_within_of_visible hx hc⟩
    have hempty : AllAccounted [] [] Registry.empty := fun n hn => by
      simp [Registry.not_contains_empty] at hn
    obtain ⟨o', ho', howns⟩ :=
      exists_owner_of_mem_allOriginsFrom howner (hsame ▸ hc) hempty ho
    have hnested : o'.isNested = true := by
      simpa [Origin.isNested] using howns.1
    exact ⟨o', ho', h.same _ _ (ownerBelow_of_isNested ho' hnested) hbelow howns.2.2⟩

/-- What is known of the identifiers in a header. Those of every definition are distinct. Those
of a table are the identifiers of the settings that its composite stores, so they are distinct
in all tables exactly if every visible composite stores distinct ones. That is so of composites
whose table agrees with some definition, and of all if every visible composite below a root
owns its struct and owning composites of one name have the same settings. -/
structure TellsApart (roots : List Setting) (h : Header) : Prop where
  structs : ∀ d ∈ h.structs, d.idents.Nodup
  tables : List.Forall₂ (fun site t => t.idents = site.setting.storedIdents)
    (roots.flatMap postorder) h.tables
  nodup_iff : (∀ t ∈ h.tables, t.idents.Nodup) ↔
    ∀ root ∈ roots, ∀ path x, Visible root path x → x.storedIdents.Nodup
  agreeing : ∀ t ∈ h.tables, ∀ d ∈ h.structs, t.AgreesWith d → t.idents.Nodup
  nodup : OwnsThroughout roots → ∀ t ∈ h.tables, t.idents.Nodup

/-- The tables of a header have distinct identifiers exactly if all visible composites store
distinct ones. -/
theorem nodup_idents_iff {roots : List Setting} {h : Header} (hc : compile roots = .ok h) :
    (∀ t ∈ h.tables, t.idents.Nodup) ↔
      ∀ root ∈ roots, ∀ path x, Visible root path x → x.storedIdents.Nodup := by
  have hsites : (∀ site ∈ roots.flatMap postorder, site.setting.storedIdents.Nodup) ↔
      ∀ t ∈ h.tables, t.idents.Nodup := by
    refine forall_mem_congr (fun {site t} ⟨names, hd⟩ => ?_) (tables_of_compileFrom roots hc)
    rw [hd.idents]
  rw [← hsites]
  constructor
  · intro hnodup root hroot path x hx
    exact hnodup ⟨path, x⟩ (List.mem_flatMap.mpr ⟨root, hroot, mem_postorder_iff.mpr hx⟩)
  · intro hnodup site hsite
    obtain ⟨root, hroot, hmem⟩ := List.mem_flatMap.mp hsite
    exact hnodup root hroot site.path site.setting (mem_postorder_iff.mp hmem)

/-- In every header that compiles, definitions have distinct identifiers, and tables have those
that their composites store. -/
theorem tellsApart {roots : List Setting} {h : Header} (hc : compile roots = .ok h) :
    TellsApart roots h where
  structs := by
    rw [structs_of_compileFrom roots hc, List.forall_mem_map]
    intro o ho
    rw [StructDef.idents, Origin.definition, StructDef.of, map_ident_flatMap_membersOf]
    exact nodup_of_compileFrom roots hc o ho
  tables := (tables_of_compileFrom roots hc).imp fun _ _ ⟨_, hd⟩ => hd.idents
  nodup_iff := nodup_idents_iff hc
  agreeing := by
    have hsites : (∀ site ∈ roots.flatMap postorder, ∀ o ∈ allOrigins roots,
          site.setting.FitsInto o.setting → site.setting.storedIdents.Nodup) ↔
        ∀ t ∈ h.tables, ∀ o ∈ allOrigins roots, t.AgreesWith o.definition → t.idents.Nodup := by
      refine forall_mem_congr (fun {site t} ⟨names, hd⟩ => ?_) (tables_of_compileFrom roots hc)
      rw [hd.idents]
      exact forall₂_congr fun o _ => imp_congr_left (hd.agreesWith_iff o).symm
    rw [structs_of_compileFrom roots hc]
    simp only [List.forall_mem_map]
    exact hsites.mp fun _ _ o ho hfits => hfits.nodup (nodup_of_compileFrom roots hc o ho)
  nodup howns := by
    refine (nodup_idents_iff hc).mpr fun root hroot path x hx => ?_
    obtain ⟨o, ho, hsame⟩ := exists_origin_of_visible howns hroot hx
    have hfits : x.FitsInto o.setting := fitsInto_of_memberIdents_eq (by rw [hsame])
    exact hfits.nodup (nodup_of_compileFrom roots hc o ho)

/-- What compiling a list of roots says of repeated identifiers. Sound roots compile exactly if
no composite that a definition is made from repeats an identifier, and otherwise the identifier
that one of them repeats is reported. -/
structure ReportsRepeats (roots : List Setting) : Prop where
  compiled : ∀ h, compile roots = .ok h → TellsApart roots h
  compiles_iff : (∀ root ∈ roots, root.IsSound ∧ root.info.kind = .struct) →
    ((∃ h, compile roots = .ok h) ↔ ∀ o ∈ allOrigins roots, o.setting.idents.Nodup)
  reported : (∀ root ∈ roots, root.IsSound ∧ root.info.kind = .struct) →
    ∀ e, compile roots = .error e → ∃ o ∈ allOrigins roots, o.setting.Clashes e

/-- Roots that are sound fail to compile for a repeated identifier in an origin and for nothing
else, and headers that compile tell identifiers apart as far as definitions go. -/
theorem reportsRepeats (roots : List Setting) : ReportsRepeats roots where
  compiled _ hc := tellsApart hc
  compiles_iff hs := by
    constructor
    · rintro ⟨h, hc⟩
      exact nodup_of_compileFrom roots hc
    · intro hnodup
      cases hc : compile roots with
      | ok h => exact ⟨h, rfl⟩
      | error e =>
        obtain ⟨o, ho, hclash⟩ := clashes_of_compileFrom_error roots hs hc
        exact absurd (hnodup o ho) hclash.not_nodup
  reported hs _ hc := clashes_of_compileFrom_error roots hs hc

/-- A margin with a setting for two of its sides. -/
def margin : Setting :=
  .makeGroup "Margin" .compact [.make "Top" .int .null "", .make "Left" .int .null ""] ""

/-- Two roots with the same margin, which is defined once. -/
def sheets : List Setting :=
  [bare "Pages" [margin], bare "Tabs" [margin]]

/-- The only composite below the roots is the margin. -/
theorem eq_margin_of_within {root d x : Setting} (hroot : root ∈ sheets)
    (hd : d ∈ root.children) (hx : Within d x) (hcomp : x.info.kind.isComposite = true) :
    x = margin := by
  obtain rfl : d = margin := by
    simp only [sheets, List.mem_cons, List.not_mem_nil, or_false] at hroot
    rcases hroot with rfl | rfl <;> exact List.mem_singleton.mp hd
  rcases within_iff.mp hx with rfl | ⟨side, hside, hx⟩
  · rfl
  · simp only [margin, Setting.makeGroup, Setting.make, children, List.mem_cons,
      List.not_mem_nil, or_false] at hside
    rcases hside with rfl | rfl <;> rcases within_iff.mp hx with rfl | ⟨_, hnone, -⟩ <;>
      first | cases hcomp | cases hnone

/-- Every composite below `sheets` owns its struct, and all are the one margin. -/
theorem ownsThroughout_sheets : OwnsThroughout sheets where
  owner root hroot path x hx c hc htabled := by
    obtain ⟨d, hd, hin⟩ := exists_within_of_visible hx hc
    rw [isTabled, Bool.and_eq_true] at htabled
    rw [eq_margin_of_within hroot hd hin htabled.2]
    decide
  same x y hx hy _ := by
    have heq {z : Setting} (hz : OwnerBelow sheets z) : z = margin := by
      obtain ⟨howner, root, hroot, d, hd, hin⟩ := hz
      rw [isOwner, Bool.and_eq_true] at howner
      exact eq_margin_of_within hroot hd hin howner.1
    rw [heq hx, heq hy]

/-- The identifiers are distinct in all tables of `sheets`, that of the second margin among them,
which is made without a definition. -/
theorem reportsRepeats_sheets :
    ∃ h, compile sheets = .ok h ∧ TellsApart sheets h ∧ OwnsThroughout sheets ∧
      h.tables.map Table.idents = [["top", "left"], ["margin"], ["top", "left"], ["margin"]] :=
  ⟨_, rfl, (reportsRepeats sheets).compiled _ rfl, ownsThroughout_sheets, by decide⟩

/-- A composite that refers to a struct defined elsewhere and repeats an identifier. -/
def doubled : Setting :=
  .makeGroup "Prefs" .struct [(Setting.makeGroup "WindowPos" .compact
    [.make "Left" .int (.int 1) "", .make "left" .int (.int 2) ""] "").withStructName "Rect"] ""

/-- The composite in `doubled` owns no struct, so nobody checks it, and its table has an
identifier twice. -/
theorem not_nodup_idents_doubled :
    ∃ h, compile [doubled] = .ok h ∧ ∃ t ∈ h.tables, ¬t.idents.Nodup :=
  ⟨_, rfl, by decide⟩

end Header
end SettingsCompiler
