import MiddleEnd.Error

/-!
# Steps of a pass

How a pass that keeps its state when it fails runs: its parts run one after the other, up to the
first that fails.
-/

namespace MiddleEnd

variable {ε σ α β : Type} {x : EStateM ε σ α} {f : α → EStateM ε σ β} {s s' s₁ : σ} {a : α} {b : β}

theorem bind_eq_ok :
    (x >>= f) s = .ok b s' ↔ ∃ a s₁, x s = .ok a s₁ ∧ f a s₁ = .ok b s' := by
  show EStateM.bind x f s = .ok b s' ↔ _
  unfold EStateM.bind
  cases x s <;> simp [and_assoc]

/-- What is left to run after a first part that succeeds. -/
theorem bind_of_ok (h : x s = .ok a s₁) : (x >>= f) s = f a s₁ := by
  show EStateM.bind x f s = _
  unfold EStateM.bind
  rw [h]

/-- A first part that fails ends the whole. -/
theorem bind_of_error {e : ε} (h : x s = .error e s₁) : (x >>= f) s = .error e s₁ := by
  show EStateM.bind x f s = _
  unfold EStateM.bind
  rw [h]

/-- The state that a step ends in, whether or not it succeeds. -/
def finalState (x : EStateM ε σ α) (s : σ) : σ :=
  match x s with
  | .ok _ s' | .error _ s' => s'

theorem finalState_bind_of_ok (h : x s = .ok a s₁) :
    finalState (x >>= f) s = finalState (f a) s₁ := by
  rw [finalState, bind_of_ok h, finalState]

/-- Reading the state never fails. -/
theorem get_bind (f : σ → EStateM ε σ β) (s : σ) : (get >>= f) s = f s s := rfl

theorem pure_eq_ok {a' : α} : (pure a : EStateM ε σ α) s = .ok a' s' ↔ a = a' ∧ s = s' := by
  show EStateM.Result.ok a s = .ok a' s' ↔ _
  simp

end MiddleEnd
