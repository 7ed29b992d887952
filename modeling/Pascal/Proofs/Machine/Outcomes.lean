import Pascal.Machine

/-!
# How a computation came out

What a computation gave tells what its parts gave: the end of two computations in a row is the end of the
second one, or the first one stopped and the second one never began. This holds of what a machine does and
of what a routine of the world does alike.
-/

namespace Pascal

section

variable {ε σ α β : Type} {x : EStateM ε σ α} {f : α → EStateM ε σ β} {b : β} {e : ε} {s s' : σ}

theorem EStateM.bind_eq_ok_iff :
    (x >>= f) s = .ok b s' ↔ ∃ a s₁, x s = .ok a s₁ ∧ f a s₁ = .ok b s' := by
  simp only [Bind.bind, EStateM.bind]
  cases x s with
  | ok a s₁ =>
    refine ⟨fun h => ⟨a, s₁, rfl, h⟩, ?_⟩
    rintro ⟨_, _, ⟨⟩, h⟩
    exact h
  | error e s₁ => simp

theorem EStateM.bind_eq_error_iff : (x >>= f) s = .error e s' ↔
    x s = .error e s' ∨ ∃ a s₁, x s = .ok a s₁ ∧ f a s₁ = .error e s' := by
  simp only [Bind.bind, EStateM.bind]
  cases x s with
  | ok a s₁ =>
    refine ⟨fun h => .inr ⟨a, s₁, rfl, h⟩, ?_⟩
    rintro (h | ⟨_, _, ⟨⟩, h⟩)
    · cases h
    · exact h
  | error e s₁ => simp

theorem EStateM.pure_eq_ok_iff {a a' : α} :
    (pure a : EStateM ε σ α) s = .ok a' s' ↔ a = a' ∧ s = s' := by
  simp [pure, EStateM.pure]

end

namespace Run

variable {α : Type} {x : Run α} {a : α} {m m' : Machine}

theorem liftFault_eq_ok_iff {r : Except Fault α} :
    liftFault r m = .ok a m' ↔ r = .ok a ∧ m' = m := by
  cases r with
  | ok c =>
    constructor
    · rintro ⟨⟩
      exact ⟨rfl, rfl⟩
    · rintro ⟨⟨⟩, rfl⟩
      rfl
  | error e => exact iff_of_false nofun fun h => nomatch h.1

theorem holding_eq_ok_iff {vs : List Value} : holding vs x m = .ok a m' ↔
    ∃ m₁, x { m with held := vs ++ m.held } = .ok a m₁ ∧ m' = { m₁ with held := m.held } := by
  unfold holding
  cases x { m with held := vs ++ m.held } with
  | ok c m₁ =>
    constructor
    · rintro ⟨⟩
      exact ⟨m₁, rfl, rfl⟩
    · rintro ⟨_, ⟨⟩, rfl⟩
      rfl
  | error e m₁ => simp

end Run

end Pascal
