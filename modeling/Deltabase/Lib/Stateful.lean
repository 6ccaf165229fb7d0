/-!
# Computations that change a state and may stop

Rules for `EStateM`: what a sequence does when its first part returns, when its
first part stops, and what is known of the parts when the sequence has returned.
-/

namespace Stateful

variable {ε σ α β : Type} {x : EStateM ε σ α} {f : α → EStateM ε σ β} {s s' : σ}

/-- A sequence goes on from what its first part returns. -/
theorem bind_ok {a : α} (h : x s = .ok a s') : (x >>= f) s = f a s' := by
  show EStateM.bind x f s = _
  rw [EStateM.bind, h]

/-- A sequence stops with its first part. -/
theorem bind_error {e : ε} (h : x s = .error e s') : (x >>= f) s = .error e s' := by
  show EStateM.bind x f s = _
  rw [EStateM.bind, h]

/-- Two first parts that do the same. -/
theorem bind_congr {y : EStateM ε σ α} {s₁ : σ} (h : x s = y s₁) :
    (x >>= f) s = (y >>= f) s₁ := by
  show EStateM.bind x f s = EStateM.bind y f s₁
  rw [EStateM.bind, EStateM.bind, h]

/-- What a sequence has returned was returned by its second part. -/
theorem bind_eq_ok {b : β} (h : (x >>= f) s = .ok b s') :
    ∃ a u, x s = .ok a u ∧ f a u = .ok b s' := by
  cases hx : x s with
  | ok a u =>
    rw [bind_ok hx] at h
    exact ⟨a, u, rfl, h⟩
  | error e u =>
    rw [bind_error hx] at h
    cases h

end Stateful
