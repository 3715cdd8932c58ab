import SettingsCompiler.Docs.Outline
import SettingsCompiler.Header.Unit
import SettingsCompiler.Proofs.Site

/-!
# Passes over sound trees

A setting is well formed if its default is one of its kind, and a tree is sound if all the
settings in it are (`Setting.IsSound`). The passes go on where a default fits its kind, so a
sound tree has literals and tables from every registry (`tabulate_total`), and what can still
go wrong with it is not due to the default of any one setting : two members of a struct have
one identifier (`clashes_of_define_error`), or a composite is asked for on the line of a
compact setting (`crowds_of_bodyChunks_error`).

`passesSound` puts this together for the passes over a root.
-/

namespace SettingsCompiler

/-! ## Sound trees -/

/-- Whether a plain default is one of a kind ; the null default stands for none. -/
def Value.fits (kind : Kind) : Value → Bool
  | null => !kind.isComposite
  | bool _ => kind == .bool
  | int _ => kind == .int
  | text _ => kind.isTextual

/-- No plain default is one of a composite. -/
theorem Value.fits_of_isComposite {kind : Kind} (value : Value)
    (h : kind.isComposite = true) : value.fits kind = false := by
  cases kind <;> cases value <;> simp_all [Value.fits, Kind.isComposite, Kind.isTextual]

namespace Setting

open Header Docs

/-- Whether the default of the setting is one of its kind : a list for a composite, and a
plain default that fits for any other. -/
def isWellFormed : Setting → Bool
  | leaf info value => value.fits info.kind
  | group info _ => info.kind.isComposite

/-- `x` is a setting of the tree of `root`, at any depth. -/
inductive Within (root : Setting) : Setting → Prop
  | root : Within root root
  | child {x c : Setting} : Within root x → c ∈ x.children → Within root c

/-- A setting of the tree is the root or one of the tree of a child. -/
theorem within_iff {root x : Setting} :
    Within root x ↔ x = root ∨ ∃ c ∈ root.children, Within c x := by
  constructor
  · intro h
    induction h with
    | root => exact .inl rfl
    | @child x d _ hd ih =>
      rcases ih with rfl | ⟨c, hc, hx⟩
      · exact .inr ⟨d, hd, .root⟩
      · exact .inr ⟨c, hc, hx.child hd⟩
  · rintro (rfl | ⟨c, hc, hx⟩)
    · exact .root
    · induction hx with
      | root => exact .child .root hc
      | child _ hd ih => exact ih.child hd

theorem Within.of_child {root c x : Setting} (hc : c ∈ root.children) (hx : Within c x) :
    Within root x :=
  within_iff.mpr (.inr ⟨c, hc, hx⟩)

/-- Every setting of the tree is well formed. -/
def IsSound (root : Setting) : Prop :=
  ∀ x, Within root x → x.isWellFormed = true

namespace IsSound

variable {root : Setting} (h : root.IsSound)
include h

theorem isWellFormed : root.isWellFormed = true := h root .root

theorem child {c : Setting} (hc : c ∈ root.children) : c.IsSound :=
  fun x hx => h x (.of_child hc hx)

end IsSound

/-! ## Children and literals -/

/-- A well-formed composite has its children. -/
theorem fields_of_isWellFormed {s : Setting} (h : s.isWellFormed = true)
    (hcomp : s.info.kind.isComposite = true) : s.fields = .ok s.children := by
  cases s with
  | leaf info value =>
    have hfits : value.fits info.kind = false := value.fits_of_isComposite hcomp
    rw [Setting.isWellFormed, hfits] at h
    cases h
  | group info cs => exact if_pos hcomp

/-- A plain default that fits its kind has a literal. -/
theorem exists_ofValue? {kind : Kind} {value : Value} (h : value.fits kind = true)
    (hcom : kind ≠ .comment) : ∃ l, Literal.ofValue? kind value = some l := by
  cases kind <;> cases value <;> simp_all [Value.fits, Literal.ofValue?, Kind.isComposite,
    Kind.isTextual]

/-- A well-formed setting has a literal. -/
theorem exists_encode {s : Setting} (h : s.isWellFormed = true) (table : Option String)
    (htable : s.info.kind.isComposite = true → table.isSome = true) :
    ∃ l, s.encode table = .ok l := by
  rw [encode.eq_def]
  split
  · exact ⟨_, rfl⟩
  · next hcom =>
    split
    · next hcomp =>
      obtain ⟨ident, rfl⟩ := Option.isSome_iff_exists.mp (htable hcomp)
      rw [fields_of_isWellFormed h hcomp]
      exact ⟨_, rfl⟩
    · next hcomp =>
      cases s with
      | leaf info value =>
        obtain ⟨l, hl⟩ := exists_ofValue? h (by simpa [isComment] using hcom)
        exact ⟨l, by simp [hl]⟩
      | group info cs => exact absurd h hcomp

/-! ## Tables -/

mutual

/-- A sound composite has tables. -/
theorem tabulate_total : ∀ (s : Setting), s.IsSound → s.info.kind.isComposite = true →
    ∀ r, ∃ p r', (tabulate s).runFrom r = (.ok p, r')
  | leaf info value, hs, hcomp, r => by
    cases fields_of_isWellFormed hs.isWellFormed hcomp
  | group info cs, hs, hcomp, r => by
    obtain ⟨⟨ts, rows⟩, r', hall⟩ := tabulateAll_total cs (fun c hc => hs.child hc) 0
      (r.bump info.structName)
    have hfields := fields_of_isWellFormed hs.isWellFormed hcomp
    rw [tabulate, hfields]
    exact ⟨_, _, Registering.runFrom_bind_ok.mpr ⟨_, _, rfl, Registering.runFrom_bind_ok.mpr
      ⟨_, _, rfl, Registering.runFrom_bind_ok.mpr ⟨_, _, hall, rfl⟩⟩⟩⟩

/-- A list of sound settings has tables and rows from every registry. -/
theorem tabulateAll_total : ∀ (cs : List Setting), (∀ c ∈ cs, c.IsSound) →
    ∀ index r, ∃ p r', (tabulateAll index cs).runFrom r = (.ok p, r')
  | [], _, index, r => ⟨_, _, rfl⟩
  | c :: cs, hs, index, r => by
    obtain ⟨hc, hcs⟩ := List.forall_mem_cons.mp hs
    -- What the list contributes in front of the rest does not matter.
    have rest (nested : List Table) (row : List Row) (r : Registry) :
        ∃ p r', (tabulateAll (index + memberCount c.info.kind) cs >>= fun p =>
          pure (nested ++ p.1, row ++ p.2) :
            Registering Fault (List Table × List Row)).runFrom r = (.ok p, r') := by
      obtain ⟨p, r', hp⟩ := tabulateAll_total cs hcs (index + memberCount c.info.kind) r
      exact ⟨_, _, Registering.runFrom_bind_ok.mpr ⟨_, _, hp, rfl⟩⟩
    have plain (hcomp : c.info.kind.isComposite = false) : ∃ l, c.encode none = .ok l :=
      exists_encode hc.isWellFormed none fun h => by rw [hcomp] at h; cases h
    rw [tabulateAll]
    split
    · next hcom =>
      obtain ⟨l, hl⟩ := plain (by rw [beq_iff_eq.mp hcom]; rfl)
      obtain ⟨p, r', hp⟩ := rest [] [Row.ofComment l] r
      rw [hl]
      exact ⟨p, r', hp⟩
    · split
      · exact rest [] [] r
      · split
        · next hcomp =>
          obtain ⟨⟨nested, name⟩, r₁, htab⟩ := tabulate_total c hc hcomp r
          obtain ⟨l, hl⟩ := exists_encode hc.isWellFormed (some name.infoIdent) fun _ => rfl
          obtain ⟨p, r', hp⟩ := rest nested [Row.ofMember c.info index l] r₁
          refine ⟨p, r', Registering.runFrom_bind_ok.mpr ⟨_, _, htab, ?_⟩⟩
          exact Registering.runFrom_bind_ok.mpr
            ⟨l, r₁, by rw [Registering.runFrom_ofExcept, hl], hp⟩
        · next hcomp =>
          obtain ⟨l, hl⟩ := plain (by simpa using hcomp)
          obtain ⟨p, r', hp⟩ := rest [] [Row.ofMember c.info index l] r
          rw [hl]
          exact ⟨p, r', hp⟩

end

/-! ## Structs -/

/-- The fault is that two members of the struct of `x` have one identifier. -/
def Clashes (x : Setting) (e : Fault) : Prop :=
  ∃ ident first second, firstRepeat [] (identsOf x.children) = some (ident, first, second) ∧
    e = .duplicateIdent x.info.structName first second ident

/-- The check of a well-formed composite fails only for identifiers. -/
theorem clashes_of_checkIdentifiers_error {s : Setting} {e : Fault}
    (hs : s.isWellFormed = true) (hcomp : s.info.kind.isComposite = true)
    (h : s.checkIdentifiers = .error e) : s.Clashes e := by
  rw [checkIdentifiers, fields_of_isWellFormed hs hcomp] at h
  dsimp only [checkIdents] at h
  split at h
  · cases h
  · next ident first second hrepeat =>
    exact ⟨ident, first, second, hrepeat, (Except.error.inj h).symm⟩

mutual

/-- The structs of a sound composite fail only for identifiers. -/
theorem clashes_of_define_error : ∀ (s : Setting), s.IsSound → s.info.kind.isComposite = true →
    ∀ {r r' e}, (define s).runFrom r = (.error e, r') → ∃ x, Within s x ∧ x.Clashes e
  | leaf info value, hs, hcomp, r, r', e, h => by
    cases fields_of_isWellFormed hs.isWellFormed hcomp
  | group info cs, hs, hcomp, r, r', e, h => by
    rw [define] at h
    obtain h | ⟨_, r₁, hcheck, h⟩ := Registering.runFrom_bind_error.mp h
    · rw [Registering.runFrom_ofExcept, Prod.mk.injEq] at h
      exact ⟨_, .root, clashes_of_checkIdentifiers_error hs.isWellFormed hcomp h.1⟩
    · obtain h | ⟨ds, r₂, hds, h⟩ := Registering.runFrom_bind_error.mp h
      · obtain ⟨c, hc, x, hx, hclash⟩ := clashes_of_defineAll_error cs (fun c hc => hs.child hc) h
        exact ⟨x, .of_child hc hx, hclash⟩
      · simp at h

/-- The structs of sound settings fail only for identifiers. -/
theorem clashes_of_defineAll_error : ∀ (cs : List Setting), (∀ c ∈ cs, c.IsSound) →
    ∀ {r r' e}, (defineAll cs).runFrom r = (.error e, r') →
      ∃ c ∈ cs, ∃ x, Within c x ∧ x.Clashes e
  | [], _, r, r', e, h => by simp [defineAll] at h
  | c :: cs, hs, r, r', e, h => by
    obtain ⟨hc, hcs⟩ := List.forall_mem_cons.mp hs
    have rest {own : List StructDef} {r : Registry}
        (h : (defineAll cs >>= fun ds => pure (own ++ ds) :
          Registering Fault (List StructDef)).runFrom r = (.error e, r')) :
        ∃ d ∈ c :: cs, ∃ x, Within d x ∧ x.Clashes e := by
      obtain h | ⟨ds, r₁, -, h⟩ := Registering.runFrom_bind_error.mp h
      · obtain ⟨d, hd, hx⟩ := clashes_of_defineAll_error cs hcs h
        exact ⟨d, List.mem_cons_of_mem c hd, hx⟩
      · simp at h
    rw [defineAll] at h
    split at h
    · next hcomp =>
      obtain h | ⟨known, r₁, -, h⟩ := Registering.runFrom_bind_error.mp h
      · simp at h
      · split at h
        · obtain h | ⟨_, r₂, -, h⟩ := Registering.runFrom_bind_error.mp h
          · simp at h
          · obtain h | ⟨own, r₃, -, h⟩ := Registering.runFrom_bind_error.mp h
            · obtain ⟨x, hx, hclash⟩ := clashes_of_define_error c hc hcomp h
              exact ⟨c, List.mem_cons_self, x, hx, hclash⟩
            · exact rest h
        · rw [fields_of_isWellFormed hc.isWellFormed hcomp] at h
          exact rest h
    · exact rest h

end

/-! ## Documentation -/

/-- The fault is that of a composite to be shown on the line of a compact setting in the tree
of `root`. -/
def Crowds (root : Setting) (e : Fault) : Prop :=
  ∃ x c, Within root x ∧ x.info.kind = .compact ∧ c ∈ x.children ∧ c.isDocumented = true ∧
    c.info.kind.isComposite = true ∧ e = c.mismatch

theorem Crowds.of_child {root c : Setting} {e : Fault} (hc : c ∈ root.children)
    (h : c.Crowds e) : root.Crowds e := by
  obtain ⟨x, d, hx, h⟩ := h
  exact ⟨x, d, .of_child hc hx, h⟩

/-- Only composites cannot be shown on a line. -/
theorem exists_of_shownDefaults_error {e : Fault} : ∀ {cs : List Setting},
    (∀ c ∈ cs, c.isWellFormed = true) → shownDefaults cs = .error e →
      ∃ c ∈ cs, c.isDocumented = true ∧ c.info.kind.isComposite = true ∧ e = c.mismatch
  | [], _, h => by cases h
  | c :: cs, hs, h => by
    obtain ⟨hc, hcs⟩ := List.forall_mem_cons.mp hs
    have rest (h : shownDefaults cs = .error e) : ∃ d ∈ c :: cs, d.isDocumented = true ∧
        d.info.kind.isComposite = true ∧ e = d.mismatch := by
      obtain ⟨d, hd, hcrowd⟩ := exists_of_shownDefaults_error hcs h
      exact ⟨d, List.mem_cons_of_mem c hd, hcrowd⟩
    rw [shownDefaults] at h
    split at h
    · next hdoc =>
      split at h
      · next htext =>
        obtain rfl := Except.error.inj h
        cases c with
        | leaf info value => cases htext
        | group info children =>
          exact ⟨_, List.mem_cons_self, hdoc, hc, (Except.error.inj htext).symm⟩
      · split at h
        · next hrest =>
          obtain rfl := Except.error.inj h
          exact rest hrest
        · cases h
    · exact rest h

mutual

/-- The documentation of a sound tree fails only for composites inside compact settings. -/
theorem crowds_of_bodyChunks_error {e : Fault} : ∀ (s : Setting), s.IsSound →
    ∀ {depth path}, bodyChunks depth path s = .error e → s.Crowds e
  | leaf info value, hs, depth, path, h => by
    have hplain : info.kind.isComposite = false := by
      by_contra hcomp
      cases fields_of_isWellFormed hs.isWellFormed (by simpa using hcomp)
    rw [bodyChunks] at h
    cases hk : info.kind <;> simp_all [Kind.isComposite]
  | group info cs, hs, depth, path, h => by
    have hcomp : info.kind.isComposite = true := hs.isWellFormed
    have inside {depth path} (h : listChunks depth path false cs = .error e) :
        (group info cs).Crowds e := by
      obtain ⟨c, hc, hcrowd⟩ := crowds_of_listChunks_error cs (fun c hc => hs.child hc) h
      exact hcrowd.of_child hc
    rw [bodyChunks] at h
    split at h
    · split at h
      · next hinner =>
        obtain rfl := Except.error.inj h
        exact inside hinner
      · cases h
    · split at h
      · next hinner =>
        obtain rfl := Except.error.inj h
        exact inside hinner
      · cases h
    · next hcompact =>
      rw [compactText, fields_of_isWellFormed hs.isWellFormed hcomp] at h
      cases hshown : shownDefaults cs with
      | error e' =>
        obtain rfl : e' = e := by simpa [children, hshown, Except.map] using h
        obtain ⟨c, hc, hcrowd⟩ := exists_of_shownDefaults_error
          (fun c hc => (hs.child hc).isWellFormed) hshown
        exact ⟨_, c, .root, hcompact, hc, hcrowd⟩
      | ok texts => simp [children, hshown, Except.map] at h
    · cases h
    · cases hk : info.kind <;> simp_all [Kind.isComposite]

/-- The documentation of sound settings fails only for composites inside compact settings. -/
theorem crowds_of_listChunks_error {e : Fault} : ∀ (cs : List Setting), (∀ c ∈ cs, c.IsSound) →
    ∀ {depth path expert}, listChunks depth path expert cs = .error e → ∃ c ∈ cs, c.Crowds e
  | [], _, depth, path, expert, h => by cases h
  | c :: cs, hs, depth, path, expert, h => by
    obtain ⟨hc, hcs⟩ := List.forall_mem_cons.mp hs
    have rest {expert} (h : listChunks depth path expert cs = .error e) :
        ∃ d ∈ c :: cs, d.Crowds e := by
      obtain ⟨d, hd, hcrowd⟩ := crowds_of_listChunks_error cs hcs h
      exact ⟨d, List.mem_cons_of_mem c hd, hcrowd⟩
    rw [listChunks] at h
    split at h
    · dsimp only at h
      split at h
      · next hbody =>
        obtain rfl := Except.error.inj h
        exact ⟨c, List.mem_cons_self, crowds_of_bodyChunks_error c hc hbody⟩
      · split at h
        · next hrest =>
          obtain rfl := Except.error.inj h
          exact rest hrest
        · cases h
    · exact rest h

end

/-! ## Passes over a root -/

/-- What a sound root gives to the passes. Children and literals are there wherever they are
asked for, and tables from every registry ; structs fail only for identifiers, and
documentation only for composites inside compact settings. -/
structure PassesSound (root : Setting) : Prop where
  fields : ∀ x, Within root x → x.info.kind.isComposite = true → x.fields = .ok x.children
  encode : ∀ x, Within root x → ∀ table, ∃ l, x.encode (some table) = .ok l
  tables : root.info.kind = .struct → ∀ r, ∃ ts r', root.tables.runFrom r = (.ok ts, r')
  structs : root.info.kind = .struct → ∀ r r' e, root.structDefs.runFrom r = (.error e, r') →
    ∃ x, Within root x ∧ x.Clashes e
  outline : root.info.kind.isComposite = true → ∀ e, root.outline = .error e → root.Crowds e

/-- Every pass over a sound root gets what it asks for. -/
theorem passesSound {root : Setting} (h : root.IsSound) : PassesSound root where
  fields x hx := fields_of_isWellFormed (h x hx)
  encode x hx table := exists_encode (h x hx) (some table) fun _ => rfl
  tables hkind r := by
    obtain ⟨⟨ts, name⟩, r', htab⟩ := tabulate_total root h (by rw [hkind]; rfl) r
    rw [Setting.tables, if_pos hkind]
    exact ⟨ts, r', Registering.runFrom_bind_ok.mpr ⟨_, _, htab, rfl⟩⟩
  structs hkind r r' e he := by
    rw [structDefs, if_pos hkind] at he
    exact clashes_of_define_error root h (by rw [hkind]; rfl) he
  outline hcomp e he := by
    rw [Setting.outline, fields_of_isWellFormed h.isWellFormed hcomp] at he
    obtain ⟨c, hc, hcrowd⟩ := crowds_of_listChunks_error root.children (fun c hc => h.child hc) he
    exact hcrowd.of_child hc

end Setting
end SettingsCompiler
