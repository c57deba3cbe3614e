import MiddleEnd.Proofs.Steps

/-!
# Two runs in step

Two passes are in step if, from states that correspond, both succeed or both fail, and what they end
with corresponds again. What it means to correspond is left open, for states, results and errors
alike: it is what a claim about two runs is about.

Results:
1. `Lockstep.bind`: parts that are in step make a whole that is.
2. `Lockstep.mapM`, `Lockstep.forM`: the same for lists.
-/

namespace MiddleEnd

variable {ε ε' σ σ' α α' β β' : Type}

/-- From states that correspond by `S`, two runs both succeed, with results that correspond by `R`
and states that correspond by `T`, or both fail, with errors that correspond by `F`. -/
def Lockstep (S T : σ → σ' → Prop) (F : ε → ε' → Prop) (R : α → α' → Prop)
    (x : EStateM ε σ α) (x' : EStateM ε' σ' α') : Prop :=
  ∀ s s', S s s' →
    (∃ a t a' t', x s = .ok a t ∧ x' s' = .ok a' t' ∧ R a a' ∧ T t t') ∨
      ∃ e t e' t', x s = .error e t ∧ x' s' = .error e' t' ∧ F e e'

namespace Lockstep

variable {S T U : σ → σ' → Prop} {F : ε → ε' → Prop} {R : α → α' → Prop} {Q : β → β' → Prop}
  {x : EStateM ε σ α} {x' : EStateM ε' σ' α'}

theorem pure {a : α} {a' : α'} (same : R a a') :
    Lockstep S S F R (pure a : EStateM ε σ α) (pure a' : EStateM ε' σ' α') :=
  fun s s' here => .inl ⟨a, s, a', s', rfl, rfl, same, here⟩

theorem throw {e : ε} {e' : ε'} (same : F e e') :
    Lockstep S T F R (throw e : EStateM ε σ α) (throw e' : EStateM ε' σ' α') :=
  fun s s' _ => .inr ⟨e, s, e', s', rfl, rfl, same⟩

/-- One part after the other. -/
theorem bind {f : α → EStateM ε σ β} {f' : α' → EStateM ε' σ' β'}
    (hx : Lockstep S T F R x x') (hf : ∀ a a', R a a' → Lockstep T U F Q (f a) (f' a')) :
    Lockstep S U F Q (x >>= f) (x' >>= f') := by
  intro s s' here
  rcases hx s s' here with ⟨a, t, a', t', ran, ran', same, there⟩ |
    ⟨e, t, e', t', failed, failed', same⟩
  · rw [bind_of_ok ran, bind_of_ok ran']
    exact hf a a' same t t' there
  · exact .inr ⟨e, t, e', t', bind_of_error failed, bind_of_error failed', same⟩

/-- Two runs that read their state first. -/
theorem get_bind {f : σ → EStateM ε σ β} {f' : σ' → EStateM ε' σ' β'}
    (h : ∀ s s', S s s' → Lockstep S T F Q (f s) (f' s')) :
    Lockstep S T F Q (get >>= f) (get >>= f') := fun s s' here => h s s' here s s' here

/-- Two lists, the one made from the other, taken element by element. -/
theorem mapM {f : α → EStateM ε σ β} {f' : α' → EStateM ε' σ' β'} {g : α → α'} {k : β → β'}
    {as : List α}
    (h : ∀ a ∈ as, Lockstep S S F (fun b b' => b' = k b) (f a) (f' (g a))) :
    Lockstep S S F (fun bs bs' => bs' = bs.map k) (as.mapM f) ((as.map g).mapM f') := by
  induction as with
  | nil => exact pure rfl
  | cons a rest ih =>
    obtain ⟨first, others⟩ := List.forall_mem_cons.1 h
    rw [List.map_cons, List.mapM_cons, List.mapM_cons]
    refine first.bind fun b b' same => ?_
    refine (ih others).bind fun bs bs' sames => ?_
    rw [same, sames]
    exact pure rfl

theorem forM {f : α → EStateM ε σ PUnit} {f' : α' → EStateM ε' σ' PUnit} {g : α → α'}
    {as : List α}
    (h : ∀ a ∈ as, Lockstep S S F (fun _ _ => True) (f a) (f' (g a))) :
    Lockstep S S F (fun _ _ => True) (as.forM f) ((as.map g).forM f') := by
  induction as with
  | nil => exact pure trivial
  | cons a rest ih =>
    obtain ⟨first, others⟩ := List.forall_mem_cons.1 h
    exact first.bind fun _ _ _ => ih others

end Lockstep
end MiddleEnd
