import SettingsCompiler.Header.Unit
import SettingsCompiler.Proofs.Site

/-!
# Where definitions come from

A definition is made from a root, or from a composite that owns its struct and was the
first to be met under its name (`Origin`). `Header.allOrigins` lists the origins of a
header in the order of its definitions (`structs_of_compileFrom`).

A name that is registered was met before : either its definition is among those made so
far, or it is still being made, around the place the run has come to (`Accounted`). A run
keeps this (`accounted_origins`), so an owning composite inside a definition has its name
defined before, unless a composite around it has the same name (`definesNamesFirst`). The
struct of the name is the one its first owner has : other owners of the name may have
another, which then stays undefined, and a composite inside its own definition comes
before it (`not_definesStructsFirst`).
-/

namespace SettingsCompiler

open Header

namespace Setting

/-- Whether a setting under another is a composite that owns its struct. -/
def isOwner (s : Setting) : Bool :=
  s.info.kind.isComposite && s.ownsStruct

/-- A composite that a definition is made from, and the composites entered below the root
on the way to it, itself the first ; a root has none around it. -/
structure Origin where
  setting : Setting
  around : List Setting

/-- The definition made from an origin. -/
def Origin.definition (o : Origin) : StructDef :=
  .of o.setting.info o.setting.children

mutual

/-- The origins of the definitions for a composite, its own the last, and the registry after
them ; `around` is what stands around the composite. -/
def origins (around : List Setting) (r : Registry) : Setting → List Origin × Registry
  | leaf info value => ([⟨leaf info value, around⟩], r)
  | group info children =>
    let inside := originsAll around r children
    (inside.1 ++ [⟨group info children, around⟩], inside.2)

/-- The origins of the definitions for the settings of one list. -/
def originsAll (around : List Setting) (r : Registry) : List Setting → List Origin × Registry
  | [] => ([], r)
  | c :: cs =>
    let own :=
      if c.isOwner && !r.contains c.info.name then
        origins (c :: around) (r.bump c.info.name) c
      else ([], r)
    let rest := originsAll around own.2 cs
    (own.1 ++ rest.1, rest.2)

end

theorem mem_origins (around : List Setting) (r : Registry) (s : Setting) :
    ⟨s, around⟩ ∈ (origins around r s).1 := by
  cases s <;> simp [origins]

/-! ## One run, taken apart -/

/-- A run over a composite makes its definition behind those inside it. -/
theorem define_group_ok {info : Info} {cs : List Setting} {r r' : Registry}
    {ds : List StructDef} (h : (define (group info cs)).runFrom r = (.ok ds, r')) :
    ∃ inside, (defineAll cs).runFrom r = (.ok inside, r') ∧
      ds = inside ++ [.of info cs] := by
  rw [define] at h
  obtain ⟨_, r₁, hcheck, h⟩ := Registering.runFrom_bind_ok.mp h
  rw [Registering.runFrom_ofExcept, Prod.mk.injEq] at hcheck
  obtain ⟨-, rfl⟩ := hcheck
  obtain ⟨inside, r₂, hcs, hret⟩ := Registering.runFrom_bind_ok.mp h
  simp only [Registering.runFrom_pure, Prod.mk.injEq, Except.ok.injEq] at hret
  obtain ⟨rfl, rfl⟩ := hret
  exact ⟨inside, hcs, rfl⟩

theorem define_leaf_ne_ok {info : Info} {value : Value} {r r' : Registry}
    {ds : List StructDef} : (define (leaf info value)).runFrom r ≠ (.ok ds, r') := by
  simp [define]

/-- The definitions that one setting `c` of a list makes, and the registry after it. -/
inductive Emits (c : Setting) (r : Registry) : List StructDef → Registry → Prop
  | defines {ds : List StructDef} {r₁ : Registry} : c.isOwner = true →
      r.contains c.info.name = false →
      (define c).runFrom (r.bump c.info.name) = (.ok ds, r₁) → Emits c r ds r₁
  | refers : (c.isOwner = true → r.contains c.info.name = true) → Emits c r [] r

/-- A run over a list is one step for its first setting and a run over the rest. -/
theorem defineAll_cons_ok {c : Setting} {cs : List Setting} {r r' : Registry}
    {ds : List StructDef} (h : (defineAll (c :: cs)).runFrom r = (.ok ds, r')) :
    ∃ own r₁ rest, Emits c r own r₁ ∧ (defineAll cs).runFrom r₁ = (.ok rest, r') ∧
      ds = own ++ rest := by
  have rest : ∀ {own r₁}, Emits c r own r₁ →
      (defineAll cs >>= fun ds₂ => pure (own ++ ds₂)).runFrom r₁ = (.ok ds, r') →
      ∃ own r₁ rest, Emits c r own r₁ ∧ (defineAll cs).runFrom r₁ = (.ok rest, r') ∧
        ds = own ++ rest := by
    intro own r₁ hown hrest
    obtain ⟨ds₂, r₂, hcs, hret⟩ := Registering.runFrom_bind_ok.mp hrest
    simp only [Registering.runFrom_pure, Prod.mk.injEq, Except.ok.injEq] at hret
    obtain ⟨rfl, rfl⟩ := hret
    exact ⟨own, r₁, ds₂, hown, hcs, rfl⟩
  rw [defineAll] at h
  split at h
  · next hcomp =>
    obtain ⟨known, r₁, hknown, h⟩ := Registering.runFrom_bind_ok.mp h
    rw [Registering.runFrom_isRegistered, Prod.mk.injEq, Except.ok.injEq] at hknown
    obtain ⟨rfl, rfl⟩ := hknown
    split at h
    · next hdef =>
      rw [Bool.and_eq_true, Bool.not_eq_true'] at hdef
      obtain ⟨_, r₂, hreg, h⟩ := Registering.runFrom_bind_ok.mp h
      rw [Registering.runFrom_register, Prod.mk.injEq] at hreg
      obtain ⟨-, rfl⟩ := hreg
      obtain ⟨own, r₃, hown, h⟩ := Registering.runFrom_bind_ok.mp h
      exact rest (.defines (by simp [isOwner, hcomp, hdef.1]) hdef.2 hown) h
    · next hdef =>
      obtain ⟨_, r₂, hfields, h⟩ := Registering.runFrom_bind_ok.mp h
      rw [Registering.runFrom_ofExcept, Prod.mk.injEq] at hfields
      obtain ⟨-, rfl⟩ := hfields
      exact rest (.refers fun ho => by simp_all [isOwner]) h
  · next hcomp => exact rest (.refers fun ho => by simp_all [isOwner]) h

mutual

/-- A run over a composite makes the definitions of its origins. -/
theorem define_ok : ∀ (s : Setting) (around : List Setting) {r r' : Registry}
    {ds : List StructDef}, (define s).runFrom r = (.ok ds, r') →
    ds = (origins around r s).1.map Origin.definition ∧ r' = (origins around r s).2
  | leaf info value, around, r, r', ds, h => absurd h define_leaf_ne_ok
  | group info cs, around, r, r', ds, h => by
    obtain ⟨inside, hcs, rfl⟩ := define_group_ok h
    obtain ⟨hinside, hr'⟩ := defineAll_ok cs around hcs
    refine ⟨?_, by rw [hr', origins]⟩
    rw [hinside, origins, List.map_append]
    rfl

/-- A run over a list makes the definitions of its origins. -/
theorem defineAll_ok : ∀ (cs : List Setting) (around : List Setting) {r r' : Registry}
    {ds : List StructDef}, (defineAll cs).runFrom r = (.ok ds, r') →
    ds = (originsAll around r cs).1.map Origin.definition ∧ r' = (originsAll around r cs).2
  | [], around, r, r', ds, h => by
    simp only [defineAll, Registering.runFrom_pure, Prod.mk.injEq, Except.ok.injEq] at h
    obtain ⟨rfl, rfl⟩ := h
    exact ⟨rfl, rfl⟩
  | c :: cs, around, r, r', ds, h => by
    obtain ⟨own, r₁, rest, hown, hrest, rfl⟩ := defineAll_cons_ok h
    obtain ⟨hds, hr'⟩ := defineAll_ok cs around hrest
    have hc : ∃ o, (if c.isOwner && !r.contains c.info.name then
          origins (c :: around) (r.bump c.info.name) c else ([], r)) = o ∧
        own = o.1.map Origin.definition ∧ r₁ = o.2 := by
      refine ⟨_, rfl, ?_⟩
      cases hown with
      | defines ho hr hrun =>
        simp only [ho, hr, Bool.not_false, Bool.and_self, if_true]
        exact define_ok c (c :: around) hrun
      | refers hr =>
        by_cases ho : c.isOwner = true
        · simp [ho, hr ho]
        · simp [ho]
    obtain ⟨o, ho, rfl, rfl⟩ := hc
    rw [originsAll]
    simp only [ho]
    exact ⟨by rw [hds, List.map_append], hr'⟩

end

/-- The definitions of a root are those of its origins, and the root is a struct. -/
theorem structDefs_ok {root : Setting} {r r' : Registry} {ds : List StructDef}
    (h : root.structDefs.runFrom r = (.ok ds, r')) :
    root.info.kind = .struct ∧
      ds = (origins [] r root).1.map Origin.definition ∧ r' = (origins [] r root).2 := by
  rw [structDefs] at h
  split at h
  · next hkind => exact ⟨hkind, define_ok root [] h⟩
  · simp at h

/-! ## Names that are accounted for -/

/-- Whether an origin is an owning composite of a name, below a root. -/
def Origin.Owns (o : Origin) (n : String) : Prop :=
  o.around ≠ [] ∧ o.setting.isOwner = true ∧ o.setting.info.name = n

/-- A name is owned by the origin of a definition made so far, or it is that of a composite
around the place the run has come to. -/
def Accounted (made : List Origin) (around : List Setting) (n : String) : Prop :=
  (∃ o ∈ made, o.Owns n) ∨ ∃ z ∈ around, z.info.name = n

theorem Accounted.mono {made more : List Origin} {around : List Setting} {n : String}
    (h : Accounted made around n) : Accounted (made ++ more) around n := by
  rcases h with ⟨o, ho, hn⟩ | h
  · exact Or.inl ⟨o, List.mem_append_left more ho, hn⟩
  · exact Or.inr h

/-- Whatever is registered is accounted for. -/
def AllAccounted (made : List Origin) (around : List Setting) (r : Registry) : Prop :=
  ∀ n, r.contains n = true → Accounted made around n

/-- Inside a composite its name is accounted for by the composite around. -/
theorem AllAccounted.enter {made : List Origin} {around : List Setting} {r : Registry}
    (h : AllAccounted made around r) (c : Setting) :
    AllAccounted made (c :: around) (r.bump c.info.name) := by
  intro n hn
  rcases Registry.contains_bump_iff.mp hn with rfl | hn
  · exact Or.inr ⟨c, List.mem_cons_self, rfl⟩
  · rcases h n hn with hmade | ⟨z, hz, hzn⟩
    · exact Or.inl hmade
    · exact Or.inr ⟨z, List.mem_cons_of_mem c hz, hzn⟩

/-- Behind an owning composite its name is accounted for by its definition. -/
theorem AllAccounted.leave {made : List Origin} {around : List Setting} {r : Registry}
    {c : Setting} (h : AllAccounted made (c :: around) r) (howner : c.isOwner = true)
    (hmade : ⟨c, c :: around⟩ ∈ made) : AllAccounted made around r := by
  intro n hn
  rcases h n hn with hdef | ⟨z, hz, hzn⟩
  · exact Or.inl hdef
  · rcases List.mem_cons.mp hz with rfl | hz
    · exact Or.inl ⟨_, hmade, List.cons_ne_nil z around, howner, hzn⟩
    · exact Or.inr ⟨z, hz, hzn⟩

/-- Behind the definitions `made`, each of a list of origins has the owning composites
inside it accounted for when its definition is made. -/
def OwnersAccounted : List Origin → List Origin → Prop
  | _, [] => True
  | made, o :: l =>
    (∀ c ∈ o.setting.children, c.isOwner = true → Accounted made o.around c.info.name) ∧
      OwnersAccounted (made ++ [o]) l

theorem ownersAccounted_append : ∀ (l : List Origin) {made l' : List Origin},
    OwnersAccounted made (l ++ l') ↔
      OwnersAccounted made l ∧ OwnersAccounted (made ++ l) l'
  | [], made, l' => by simp [OwnersAccounted]
  | o :: l, made, l' => by
    rw [List.cons_append, OwnersAccounted, OwnersAccounted, ownersAccounted_append l, and_assoc,
      List.append_assoc, List.singleton_append]

/-- What an origin needs is accounted for by the definitions in front of its own, or by the
composites around it. -/
theorem OwnersAccounted.accounted {o : Origin} {c : Setting} (hc : c ∈ o.setting.children)
    (howner : c.isOwner = true) : ∀ {l made : List Origin} {k : Nat}, OwnersAccounted made l →
      l[k]? = some o → Accounted (made ++ l.take k) o.around c.info.name
  | [], made, k, _, hk => by simp at hk
  | _ :: l, made, 0, h, hk => by
    obtain rfl := Option.some.inj hk
    simpa using h.1 c hc howner
  | o' :: l, made, k + 1, h, hk => by
    have := OwnersAccounted.accounted hc howner h.2 (by simpa using hk)
    simpa using this

mutual

theorem contains_origins {n : String} : ∀ (s : Setting) (around : List Setting) {r : Registry},
    r.contains n = true → (origins around r s).2.contains n = true
  | leaf _ _, _, _, h => h
  | group _ cs, around, _, h => contains_originsAll cs around h

theorem contains_originsAll {n : String} : ∀ (cs : List Setting) (around : List Setting)
    {r : Registry}, r.contains n = true → (originsAll around r cs).2.contains n = true
  | [], _, _, h => h
  | c :: cs, around, r, h => by
    rw [originsAll]
    refine contains_originsAll cs around ?_
    split
    · exact contains_origins c _ (Registry.contains_bump_iff.mpr (Or.inr h))
    · exact h

end

/-- A run over a list leaves the names of its owning composites registered. -/
theorem contains_of_isOwner {c : Setting} (howner : c.isOwner = true) (around : List Setting) :
    ∀ (cs : List Setting) {r : Registry}, c ∈ cs →
      (originsAll around r cs).2.contains c.info.name = true
  | d :: cs, r, hc => by
    rw [originsAll]
    rcases List.mem_cons.mp hc with rfl | hc
    · refine contains_originsAll cs around ?_
      split
      · exact contains_origins c _ (Registry.contains_bump_iff.mpr (Or.inl rfl))
      · next h => simpa [howner] using h
    · exact contains_of_isOwner howner around cs hc

mutual

/-- A run keeps whatever is registered accounted for. -/
theorem accounted_origins : ∀ (s : Setting) {around : List Setting} {r : Registry}
    {made : List Origin}, AllAccounted made around r →
    OwnersAccounted made (origins around r s).1 ∧
      AllAccounted (made ++ (origins around r s).1) around (origins around r s).2
  | leaf info value, around, r, made, h => by
    refine ⟨⟨fun c hc => ?_, trivial⟩, fun n hn => (h n hn).mono⟩
    simp [children] at hc
  | group info cs, around, r, made, h => by
    obtain ⟨hinside, hall⟩ := accounted_originsAll cs h
    rw [origins]
    refine ⟨(ownersAccounted_append _).mpr ⟨hinside, fun c hc howner => ?_, trivial⟩, ?_⟩
    · exact hall _ (contains_of_isOwner howner around cs hc)
    · intro n hn
      rw [← List.append_assoc]
      exact (hall n hn).mono

/-- A run over a list keeps whatever is registered accounted for. -/
theorem accounted_originsAll : ∀ (cs : List Setting) {around : List Setting} {r : Registry}
    {made : List Origin}, AllAccounted made around r →
    OwnersAccounted made (originsAll around r cs).1 ∧
      AllAccounted (made ++ (originsAll around r cs).1) around (originsAll around r cs).2
  | [], around, r, made, h => by simpa [originsAll, OwnersAccounted] using h
  | c :: cs, around, r, made, h => by
    have hown : ∀ own, (if c.isOwner && !r.contains c.info.name then
          origins (c :: around) (r.bump c.info.name) c else ([], r)) = own →
        OwnersAccounted made own.1 ∧ AllAccounted (made ++ own.1) around own.2 := by
      rintro own rfl
      split
      · next hdef =>
        rw [Bool.and_eq_true] at hdef
        obtain ⟨howners, hall⟩ := accounted_origins c (h.enter c)
        exact ⟨howners, hall.leave hdef.1 (List.mem_append_right made (mem_origins _ _ c))⟩
      · simpa [OwnersAccounted] using h
    rw [originsAll]
    obtain ⟨howners, hall⟩ := hown _ rfl
    obtain ⟨howners', hall'⟩ := accounted_originsAll cs hall
    refine ⟨(ownersAccounted_append _).mpr ⟨howners, howners'⟩, ?_⟩
    rw [← List.append_assoc]
    exact hall'

end

end Setting

namespace Header

open Setting

/-! ## The definitions of a header -/

/-- The origins of the definitions for a list of roots, with some names registered. -/
def allOriginsFrom (r : Registry) : List Setting → List Origin
  | [] => []
  | root :: roots =>
    (origins [] r root).1 ++ allOriginsFrom (origins [] r root).2 roots

/-- The origins of the definitions in the header of a list of roots. -/
def allOrigins (roots : List Setting) : List Origin :=
  allOriginsFrom .empty roots

/-- A header is that of its first root, with that of the others behind it from the registries
left over. -/
theorem compileFrom_cons_ok {rs : Registries} {root : Setting} {roots : List Setting}
    {h : Header} (hc : compileFrom rs (root :: roots) = .ok h) :
    ∃ structs inStructs tables inTables rest,
      root.structDefs.runFrom rs.structs = (.ok structs, inStructs) ∧
      root.tables.runFrom rs.tables = (.ok tables, inTables) ∧
      compileFrom ⟨inStructs, inTables⟩ roots = .ok rest ∧
      h = ⟨structs ++ rest.structs, tables ++ rest.tables⟩ := by
  rw [compileFrom] at hc
  split at hc
  · cases hc
  · next structs inStructs hstructs =>
    split at hc
    · cases hc
    · next tables inTables htables =>
      split at hc
      · cases hc
      · next rest hrest =>
        exact ⟨structs, inStructs, tables, inTables, rest, hstructs, htables, hrest,
          (Except.ok.inj hc).symm⟩

/-- The definitions in a header are those of its origins, root by root. -/
theorem structs_of_compileFrom : ∀ (roots : List Setting) {rs : Registries} {h : Header},
    compileFrom rs roots = .ok h →
    h.structs = (allOriginsFrom rs.structs roots).map Origin.definition
  | [], rs, h, hc => by
    rw [← Except.ok.inj hc]
    rfl
  | root :: roots, rs, h, hc => by
    obtain ⟨structs, inStructs, tables, inTables, rest, hstructs, -, hrest, rfl⟩ :=
      compileFrom_cons_ok hc
    obtain ⟨-, hds, hin⟩ := structDefs_ok hstructs
    rw [allOriginsFrom, List.map_append, ← hds, ← hin, structs_of_compileFrom roots hrest]

/-- The origins of a header are accounted for, by induction on its roots. -/
theorem accounted_allOriginsFrom : ∀ (roots : List Setting) {r : Registry} {made : List Origin},
    AllAccounted made [] r → OwnersAccounted made (allOriginsFrom r roots)
  | [], _, _, _ => trivial
  | root :: roots, r, made, h => by
    obtain ⟨howners, hall⟩ := accounted_origins root h
    exact (ownersAccounted_append _).mpr ⟨howners, accounted_allOriginsFrom roots hall⟩

/-- Every owning composite inside an origin has its struct defined in front of the origin. -/
def DefinesStructsFirst (roots : List Setting) (h : Header) : Prop :=
  ∀ (k : Nat) (o : Origin), (allOrigins roots)[k]? = some o →
    ∀ c ∈ o.setting.children, c.isOwner = true →
      ∃ j < k, ∃ d, h.structs[j]? = some d ∧ d.name = c.info.structName

/-- A composite inside another of its name. -/
def nested : Setting :=
  .makeGroup "Prefs" .struct [.makeGroup "Pane" .struct [.makeGroup "Pane" .struct [] ""] ""] ""

/-- Two composites of one name with structs of different names. -/
def divided : Setting :=
  .makeGroup "Prefs" .struct [.makeGroup "Left" .struct [.makeGroup "Panes" .array [] ""] "",
    .makeGroup "Right" .struct [.makeGroup "Panes" .struct [] ""] ""] ""

/-- A composite inside another of its name is met before the definition of the name is made,
and a name is defined with the struct of its first owner only. -/
theorem not_definesStructsFirst :
    (∃ h, compile [nested] = .ok h ∧ ¬DefinesStructsFirst [nested] h) ∧
      ∃ h, compile [divided] = .ok h ∧ ¬DefinesStructsFirst [divided] h := by
  refine ⟨⟨_, rfl, fun hfirst => ?_⟩, ⟨_, rfl, fun hfirst => ?_⟩⟩
  · obtain ⟨j, hj, -⟩ := hfirst 0 _ rfl (.makeGroup "Pane" .struct [] "") (.head _) (by decide)
    exact Nat.not_lt_zero j hj
  · obtain ⟨j, hj, d, hd, hname⟩ :=
      hfirst 2 _ rfl (.makeGroup "Panes" .struct [] "") (.head _) (by decide)
    obtain rfl | rfl : j = 0 ∨ j = 1 := by omega
    all_goals
      obtain rfl := Option.some.inj hd
      revert hname
      decide

/-- The definitions of a header are those of its origins. Let no composite of its own name
stand around an owning composite in an origin : then the name is owned by an origin in front
of this one, and if each such origin has the composite's struct, it is defined there. -/
structure DefinesNamesFirst (roots : List Setting) (h : Header) : Prop where
  structs : h.structs = (allOrigins roots).map Origin.definition
  owner : ∀ (k : Nat) (o : Origin), (allOrigins roots)[k]? = some o →
    ∀ c ∈ o.setting.children, c.isOwner = true → (∀ z ∈ o.around, z.info.name ≠ c.info.name) →
    ∃ j < k, ∃ o', (allOrigins roots)[j]? = some o' ∧ o'.Owns c.info.name
  struct : ∀ (k : Nat) (o : Origin), (allOrigins roots)[k]? = some o →
    ∀ c ∈ o.setting.children, c.isOwner = true → (∀ z ∈ o.around, z.info.name ≠ c.info.name) →
    (∀ j < k, ∀ o', (allOrigins roots)[j]? = some o' → o'.Owns c.info.name →
      o'.setting.info.structName = c.info.structName) →
    ∃ j < k, ∃ d, h.structs[j]? = some d ∧ d.name = c.info.structName

/-- An owning composite inside an origin has its name owned by an earlier origin, if none around
it has that name. -/
theorem exists_owner_before {roots : List Setting} {k : Nat} {o : Origin}
    (ho : (allOrigins roots)[k]? = some o) {c : Setting} (hc : c ∈ o.setting.children)
    (howner : c.isOwner = true) (hfree : ∀ z ∈ o.around, z.info.name ≠ c.info.name) :
    ∃ j < k, ∃ o', (allOrigins roots)[j]? = some o' ∧ o'.Owns c.info.name := by
  have hempty : AllAccounted [] [] Registry.empty := fun n hn => by
    simp [Registry.not_contains_empty] at hn
  rcases (accounted_allOriginsFrom roots hempty).accounted hc howner ho with
    ⟨o', hmem, howns⟩ | ⟨z, hz, hzn⟩
  · rw [List.nil_append] at hmem
    obtain ⟨j, hj⟩ := List.getElem?_of_mem hmem
    rw [List.getElem?_take] at hj
    split at hj
    · next hjk => exact ⟨j, hjk, o', hj, howns⟩
    · cases hj
  · exact absurd hzn (hfree z hz)

/-- In every header that compiles, a struct is defined behind those of the composites inside it,
as far as names tell. -/
theorem definesNamesFirst {roots : List Setting} {h : Header} (hc : compile roots = .ok h) :
    DefinesNamesFirst roots h where
  structs := structs_of_compileFrom roots hc
  owner _ _ ho _ hmem howner hfree := exists_owner_before ho hmem howner hfree
  struct k o ho c hmem howner hfree hagree := by
    obtain ⟨j, hj, o', ho', howns⟩ := exists_owner_before ho hmem howner hfree
    refine ⟨j, hj, o'.definition, ?_, hagree j hj o' ho' howns⟩
    rw [structs_of_compileFrom roots hc, List.getElem?_map]
    exact congrArg (Option.map Origin.definition) ho'

/-- Two pages with margins of one name, the second defined by the first. -/
def pages : Setting :=
  .makeGroup "Prefs" .struct [
    .makeGroup "FixedPage" .struct [.makeGroup "Margin" .compact [.make "Top" .int .null ""] ""] "",
    .makeGroup "ComicBook" .struct [.makeGroup "Margin" .compact [.make "Top" .int .null ""] ""] ""]
    ""

/-- The margin of `pages` is defined in front of the second page, which contains it. -/
theorem definesNamesFirst_pages :
    ∃ h, compile [pages] = .ok h ∧ DefinesNamesFirst [pages] h ∧
      ∃ j < 2, ∃ d, h.structs[j]? = some d ∧ d.name = "Margin" := by
  refine ⟨_, rfl, definesNamesFirst rfl, ?_⟩
  have hfirst : DefinesNamesFirst [pages] _ := definesNamesFirst rfl
  refine hfirst.struct 2 _ rfl (.makeGroup "Margin" .compact [.make "Top" .int .null ""] "")
    (.head _) (by decide) (by decide) fun j hj o ho howns => ?_
  obtain rfl | rfl : j = 0 ∨ j = 1 := by omega
  · obtain rfl := Option.some.inj ho
    rfl
  · obtain rfl := Option.some.inj ho
    exact absurd howns.2.2 (by decide)

end Header
end SettingsCompiler
