/-! # Computations that succeed or fail

What is known of the steps of a computation once the whole has succeeded.  The proofs about the
readers take a computation apart with these lemmas, from its first step on.  If it has failed, the
first step that fails says why.
-/

namespace TemplateCompiler

variable {ε α β : Type}

/-- What a computation of two steps started with. -/
theorem eq_ok_of_bind {r : Except ε α} {f : α → Except ε β} {b : β} (h : r >>= f = .ok b) :
    ∃ a, r = .ok a ∧ f a = .ok b := by
  cases r with
  | error e => cases h
  | ok a => exact ⟨a, rfl, h⟩

/-- What a result was made of. -/
theorem eq_ok_of_map {r : Except ε α} {f : α → β} {b : β} (h : r.map f = .ok b) :
    ∃ a, r = .ok a ∧ f a = b := by
  cases r with
  | error e => cases h
  | ok a =>
    cases h
    exact ⟨a, rfl, rfl⟩

/-- A computation that has a result succeeded. -/
theorem eq_ok_of_isSome {r : Except ε α} (h : r.toOption.isSome = true) : ∃ a, r = .ok a := by
  cases r with
  | error e => cases h
  | ok a => exact ⟨a, rfl⟩

theorem eq_ok_of_toOption {r : Except ε α} {a : α} (h : r.toOption = some a) : r = .ok a := by
  cases r with
  | error e => cases h
  | ok b =>
    cases h
    rfl

/-- Which of two steps failed. -/
theorem eq_error_of_bind {r : Except ε α} {f : α → Except ε β} {e : ε} (h : r >>= f = .error e) :
    r = .error e ∨ ∃ a, r = .ok a ∧ f a = .error e := by
  cases r with
  | error e' =>
    cases h
    exact .inl rfl
  | ok a => exact .inr ⟨a, rfl, h⟩

/-- The error of a computation that fails. -/
def failure? : Except ε α → Option ε
  | .error e => some e
  | .ok _ => none

theorem failure?_eq_some_iff {r : Except ε α} {e : ε} : failure? r = some e ↔ r = .error e := by
  cases r <;> simp [failure?]

theorem failure?_eq_none_iff {r : Except ε α} : failure? r = none ↔ ∃ a, r = .ok a := by
  cases r <;> simp [failure?]

/-- The first of two steps that fails decides. -/
theorem failure?_bind {r : Except ε α} {f : α → Except ε β} {o : Option ε}
    (h : ∀ a, failure? (f a) = o) : failure? (r >>= f) = (failure? r).or o := by
  cases r with
  | error e => rfl
  | ok a => exact h a

/-- A last step that cannot fail does not matter. -/
theorem failure?_bind_of_none {r : Except ε α} {f : α → Except ε β}
    (h : ∀ a, failure? (f a) = none) : failure? (r >>= f) = failure? r := by
  rw [failure?_bind h, Option.or_none]

end TemplateCompiler
