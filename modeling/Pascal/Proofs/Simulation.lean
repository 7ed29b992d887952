/-!
# Computations that refine others

Two computations on two kinds of states come out the same when they give the same results and leave
related states. What refines step by step refines in a row, where a step that fails is followed by the
next one on the state it left.
-/

namespace Pascal

variable {ε σ τ ι α β : Type}

/-- The results of actions one after the other, and the state then. An action that fails gives its
fault, and the next one goes on from what it left. -/
def inTurn (act : ι → EStateM ε σ α) : List ι → σ → List (Except ε α) × σ
  | [], s => ([], s)
  | i :: is, s =>
    match act i s with
    | .ok a s => let (rest, s) := inTurn act is s; (.ok a :: rest, s)
    | .error e s => let (rest, s) := inTurn act is s; (.error e :: rest, s)

theorem inTurn_append (act : ι → EStateM ε σ α) (is js : List ι) (s : σ) :
    inTurn act (is ++ js) s =
      ((inTurn act is s).1 ++ (inTurn act js (inTurn act is s).2).1,
        (inTurn act js (inTurn act is s).2).2) := by
  induction is generalizing s with
  | nil => rfl
  | cons i is ih =>
    simp only [List.cons_append, inTurn]
    cases act i s <;> simp only [ih, List.cons_append]

/-- The same result, and related states. -/
inductive Agree (R : σ → τ → Prop) : EStateM.Result ε σ α → EStateM.Result ε τ α → Prop
  | ok {a : α} {s : σ} {t : τ} (h : R s t) : Agree R (.ok a s) (.ok a t)
  | error {e : ε} {s : σ} {t : τ} (h : R s t) : Agree R (.error e s) (.error e t)

/-- On related states one computation does what the other does. -/
def Refines (R : σ → τ → Prop) (p : EStateM ε σ α) (q : EStateM ε τ α) : Prop :=
  ∀ s t, R s t → Agree R (p s) (q t)

variable {R : σ → τ → Prop} {p : EStateM ε σ α} {q : EStateM ε τ α}

theorem Agree.bind {s : σ} {t : τ} {f : α → EStateM ε σ β} {g : α → EStateM ε τ β}
    (h : Agree R (p s) (q t)) (hf : ∀ a, Refines R (f a) (g a)) :
    Agree R ((p >>= f) s) ((q >>= g) t) := by
  simp only [Bind.bind, EStateM.bind]
  generalize p s = x at h ⊢
  generalize q t = y at h ⊢
  cases h with
  | ok hst => exact hf _ _ _ hst
  | error hst => exact .error hst

namespace Refines

theorem pure (a : α) : Refines R (Pure.pure a : EStateM ε σ α) (Pure.pure a) := fun _ _ h => .ok h

theorem throw (e : ε) :
    Refines R (EStateM.throw e : EStateM ε σ α) (EStateM.throw e) := fun _ _ h => .error h

theorem bind {f : α → EStateM ε σ β} {g : α → EStateM ε τ β} (h : Refines R p q)
    (hf : ∀ a, Refines R (f a) (g a)) : Refines R (p >>= f) (q >>= g) :=
  fun s t hst => (h s t hst).bind hf

end Refines

/-- Actions that do the same on related states, each under a condition on the state it starts from, do
the same in a row. -/
theorem inTurn_agree {f : ι → EStateM ε σ α} {g : ι → EStateM ε τ α} {admits : ι → σ → Prop}
    (h : ∀ i s t, R s t → admits i s → Agree R (f i s) (g i t)) {is : List ι} {s : σ} {t : τ}
    (hadmits : ∀ k (hk : k < is.length), admits is[k] (inTurn f (is.take k) s).2) (hst : R s t) :
    (inTurn f is s).1 = (inTurn g is t).1 ∧ R (inTurn f is s).2 (inTurn g is t).2 := by
  induction is generalizing s t with
  | nil => exact ⟨rfl, hst⟩
  | cons i is ih =>
    have hfirst := h i s t hst (hadmits 0 (Nat.zero_lt_succ _))
    have hlater k (hk : k < is.length) : admits is[k] (inTurn f (i :: is.take k) s).2 :=
      hadmits (k + 1) (Nat.succ_lt_succ hk)
    simp only [inTurn] at hlater ⊢
    generalize f i s = x at hfirst hlater ⊢
    generalize g i t = y at hfirst ⊢
    cases hfirst with
    | ok hst =>
      obtain ⟨hresults, hlast⟩ := ih hlater hst
      exact ⟨congrArg (_ :: ·) hresults, hlast⟩
    | error hst =>
      obtain ⟨hresults, hlast⟩ := ih hlater hst
      exact ⟨congrArg (_ :: ·) hresults, hlast⟩

end Pascal
