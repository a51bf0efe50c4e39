/-!
# Outcomes of stateful computations

A computation that succeeds has succeeded in all its parts.

## Main definitions

* `mapState` — an outcome with its state changed

## Main statements

* `ok_of_bind`, `ok_of_map`, `ok_of_pure`, `not_ok_of_throw` — the parts of a success
-/

namespace Scriptlet

variable {ε σ τ α β : Type}

/-- The outcome with the state given by `g`. -/
def mapState (g : σ → τ) : EStateM.Result ε σ α → EStateM.Result ε τ α
  | .ok a s => .ok a (g s)
  | .error e s => .error e (g s)

/-- A success of a sequence is one of its first part and then one of its second. -/
theorem ok_of_bind {x : EStateM ε σ α} {f : α → EStateM ε σ β} {s s'' : σ} {b : β}
    (h : (x >>= f) s = .ok b s'') : ∃ a s', x s = .ok a s' ∧ f a s' = .ok b s'' := by
  change EStateM.bind x f s = .ok b s'' at h
  unfold EStateM.bind at h
  cases first : x s with
  | ok a s' => exact ⟨a, s', rfl, by simpa only [first] using h⟩
  | error e s' => simp [first] at h

/-- `pure` gives its value and leaves the state. -/
theorem ok_of_pure {a b : α} {s s' : σ} (h : (pure a : EStateM ε σ α) s = .ok b s') :
    a = b ∧ s = s' := by
  change EStateM.Result.ok a s = .ok b s' at h
  injection h with value state
  exact ⟨value, state⟩

/-- A success whose value was changed. -/
theorem ok_of_map {f : α → β} {x : EStateM ε σ α} {s s' : σ} {b : β}
    (h : (f <$> x) s = .ok b s') : ∃ a, x s = .ok a s' ∧ f a = b := by
  change EStateM.map f x s = .ok b s' at h
  unfold EStateM.map at h
  cases ran : x s with
  | ok a s₁ =>
    rw [ran] at h
    cases h
    exact ⟨a, rfl, rfl⟩
  | error e s₁ =>
    rw [ran] at h
    cases h

/-- An error is not a success. -/
theorem not_ok_of_throw {e : ε} {s s' : σ} {a : α} :
    ¬ (throw e : EStateM ε σ α) s = .ok a s' := by
  change ¬ EStateM.Result.error e s = .ok a s'
  simp

end Scriptlet
