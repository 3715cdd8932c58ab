/-!
# Names in use

A registry counts how often each name has been registered. It is the list of the
registrations, the latest first, and `count_bump` says what one registration changes.
-/

namespace SettingsCompiler

/-- Registrations of names, the latest first. -/
structure Registry where
  names : List String
deriving DecidableEq, Repr

namespace Registry

/-- Nothing registered yet. -/
def empty : Registry := ⟨[]⟩

/-- How often a name was registered. -/
def count (r : Registry) (name : String) : Nat :=
  r.names.count name

/-- Whether a name was registered. -/
def contains (r : Registry) (name : String) : Bool :=
  r.names.contains name

/-- One more registration of a name. -/
def bump (r : Registry) (name : String) : Registry :=
  ⟨name :: r.names⟩

@[simp] theorem count_empty (name : String) : empty.count name = 0 := rfl

theorem count_bump (r : Registry) (name other : String) :
    (r.bump name).count other = r.count other + if name = other then 1 else 0 := by
  simp [count, bump, List.count_cons]

theorem contains_iff_count_pos {r : Registry} {name : String} :
    r.contains name = true ↔ 0 < r.count name := by
  simp [contains, count, List.count_pos_iff]

theorem contains_bump_iff {r : Registry} {name other : String} :
    (r.bump name).contains other = true ↔ other = name ∨ r.contains other = true := by
  simp [contains, bump]

theorem not_contains_empty (name : String) : empty.contains name = false := rfl

end Registry

/-- A computation that may fail and registers names as it goes ; what a failed one
registered stays registered. -/
abbrev Registering (ε α : Type) := ExceptT ε (StateM Registry) α

namespace Registering

variable {ε α : Type}

/-- The outcome and the registry left behind. -/
def runFrom (m : Registering ε α) (r : Registry) : Except ε α × Registry :=
  (ExceptT.run m).run r

/-- Register a name and return how often it had been registered before. -/
def register (name : String) : Registering ε Nat :=
  ExceptT.lift (modifyGet fun r => (r.count name, r.bump name))

/-- Whether a name is registered by now. -/
def isRegistered (name : String) : Registering ε Bool :=
  ExceptT.lift (modifyGet fun r => (r.contains name, r))

/-- An outcome that needs no registry. -/
def ofExcept : Except ε α → Registering ε α
  | .ok a => pure a
  | .error e => throw e

/-! ## What each computation leaves behind -/

variable {β : Type}

@[simp] theorem runFrom_pure (a : α) (r : Registry) :
    runFrom (pure a : Registering ε α) r = (.ok a, r) := rfl

@[simp] theorem runFrom_throw (e : ε) (r : Registry) :
    runFrom (throw e : Registering ε α) r = (.error e, r) := rfl

theorem runFrom_bind (m : Registering ε α) (next : α → Registering ε β) (r : Registry) :
    runFrom (m >>= next) r = match runFrom m r with
      | (.ok a, r) => runFrom (next a) r
      | (.error e, r) => (.error e, r) := by
  simp only [runFrom, ExceptT.run_bind, StateT.run_bind]
  show (match (ExceptT.run m).run r with | (outcome, r) => _) = _
  rcases (ExceptT.run m).run r with ⟨outcome | a, r'⟩ <;> rfl

/-- A sequence succeeds if its first part does and its second does from what that left. -/
theorem runFrom_bind_ok {m : Registering ε α} {next : α → Registering ε β} {r r' : Registry}
    {b : β} : runFrom (m >>= next) r = (.ok b, r') ↔
      ∃ a r₁, runFrom m r = (.ok a, r₁) ∧ runFrom (next a) r₁ = (.ok b, r') := by
  rw [runFrom_bind]
  rcases runFrom m r with ⟨e | a, r₁⟩
  · simp
  · constructor
    · exact fun h => ⟨a, r₁, rfl, h⟩
    · rintro ⟨a', r₁', h, hnext⟩
      simp only [Prod.mk.injEq, Except.ok.injEq] at h
      obtain ⟨rfl, rfl⟩ := h
      exact hnext

/-- A sequence fails if its first part does or its second does from what that left. -/
theorem runFrom_bind_error {m : Registering ε α} {next : α → Registering ε β} {r r' : Registry}
    {e : ε} : runFrom (m >>= next) r = (.error e, r') ↔
      runFrom m r = (.error e, r') ∨
        ∃ a r₁, runFrom m r = (.ok a, r₁) ∧ runFrom (next a) r₁ = (.error e, r') := by
  rw [runFrom_bind]
  rcases runFrom m r with ⟨e' | a, r₁⟩
  · simp
  · constructor
    · exact fun h => .inr ⟨a, r₁, rfl, h⟩
    · rintro (h | ⟨a', r₁', h, hnext⟩)
      · simp at h
      · simp only [Prod.mk.injEq, Except.ok.injEq] at h
        obtain ⟨rfl, rfl⟩ := h
        exact hnext

@[simp] theorem runFrom_register (name : String) (r : Registry) :
    runFrom (register name : Registering ε Nat) r = (.ok (r.count name), r.bump name) := rfl

@[simp] theorem runFrom_isRegistered (name : String) (r : Registry) :
    runFrom (isRegistered name : Registering ε Bool) r = (.ok (r.contains name), r) := rfl

@[simp] theorem runFrom_ofExcept (outcome : Except ε α) (r : Registry) :
    runFrom (ofExcept outcome) r = (outcome, r) := by
  cases outcome <;> rfl

end Registering

end SettingsCompiler
