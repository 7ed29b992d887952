import Mathlib.Logic.Relation
import Pascal.Proofs.Machine.Outcomes
import Pascal.Proofs.Run.Steps

/-!
# Contracts between calls

A contract says what holds when a call is made and what holds of its result. Where each plan keeps the
contract as long as the calls that it makes do, all calls keep it: a call only makes smaller ones. What
holds when a call is made then holds of all calls that are made on the way.
-/

namespace Pascal

variable {α β γ δ : Type} {env : Env}

/-- What holds when calls are made, and what holds of their results. Both may depend on something that
the run does not know. -/
structure Contract (γ : Type) where
  before {α : Type} : γ → Task α → Machine → Prop
  after {α : Type} : γ → Task α → Machine → EStateM.Result Stop Machine α → Prop

/-- What a result has to satisfy where something follows it. -/
def Run.Then (Q : EStateM.Result Stop Machine β → Prop) (next : α → Machine → Prop) :
    EStateM.Result Stop Machine α → Prop
  | .ok a m => next a m
  | .error e m => Q (.error e m)

/-- A plan that begins on a machine gives a result with a property, as long as the calls that it makes
keep the contract. -/
def Plan.Meets (env : Env) (C : Contract γ) {α : Type} :
    Plan α → (EStateM.Result Stop Machine α → Prop) → Machine → Prop
  | action x, Q, m => Q (x m)
  | call t, Q, m => ∃ g, C.before g t m ∧ (C.after g t m (t.perform env m) → Q (t.perform env m))
  | bind p next, Q, m => p.Meets env C (Run.Then Q fun a => (next a).Meets env C Q) m
  | within a p, Q, m => p.Meets env C (fun r => Q (a.leave m r)) (a.enter m)

namespace Plan.Meets

variable {C : Contract γ} {Q Q' : EStateM.Result Stop Machine α → Prop} {m : Machine}

theorem mono {p : Plan α} (h : p.Meets env C Q m) (hQ : ∀ r, Q r → Q' r) : p.Meets env C Q' m := by
  induction p generalizing m with
  | action x => exact hQ _ h
  | call t =>
    obtain ⟨g, hb, ha⟩ := h
    exact ⟨g, hb, fun h => hQ _ (ha h)⟩
  | bind p next ihp ihn =>
    refine ihp (Q := Run.Then Q fun a => (next a).Meets env C Q) h fun r hr => ?_
    cases r with
    | ok a m' => exact ihn a hr hQ
    | error e m' => exact hQ _ hr
  | within a p ih => exact ih h fun r => hQ _

theorem action {x : Run α} (h : Q (x m)) : (Plan.action x).Meets env C Q m := h

theorem pure {a : α} (h : Q (.ok a m)) : (Pure.pure a : Plan α).Meets env C Q m := h

theorem enter {depth : Nat} {chain : Chain} {c : Code α} (g : γ) (h : C.before g ⟨c, chain, depth⟩ m)
    (hQ : ∀ r, Task.perform env ⟨c, chain, depth⟩ m = r → C.after g ⟨c, chain, depth⟩ m r → Q r) :
    (Plan.enter depth chain c).Meets env C Q m :=
  ⟨g, h, hQ _ rfl⟩

theorem within {a : Around} {p : Plan α} (h : p.Meets env C (fun r => Q (a.leave m r)) (a.enter m)) :
    (Plan.within a p).Meets env C Q m := h

theorem bind {Q : EStateM.Result Stop Machine β → Prop} {p : Plan α} {next : α → Plan β}
    {P : EStateM.Result Stop Machine α → Prop} (h : p.Meets env C P m)
    (hok : ∀ a m', P (.ok a m') → (next a).Meets env C Q m')
    (herror : ∀ e m', P (.error e m') → Q (.error e m')) : (p >>= next).Meets env C Q m := by
  refine mono (p := p) h fun r hr => ?_
  cases r with
  | ok a m' => exact hok a m' hr
  | error e m' => exact herror e m' hr

/-- A plan does what it promises where the calls that it may make keep the contract. -/
theorem perform {p : Plan α} (h : p.Meets env C Q m) {P : ∀ {δ : Type}, Task δ → Prop}
    (hp : p.Calls P)
    (ih : ∀ {δ : Type} (t : Task δ) g m, P t → C.before g t m → C.after g t m (t.perform env m)) :
    Q (p.perform env m) := by
  induction p generalizing m with
  | action x => exact h
  | call t =>
    obtain ⟨g, hb, ha⟩ := h
    exact ha (ih t g m hp hb)
  | bind p next ihp ihn =>
    have hthen := ihp (Q := Run.Then Q fun a => (next a).Meets env C Q) h hp.1
    simp only [Plan.perform, Bind.bind, EStateM.bind]
    cases hr : p.perform env m with
    | ok a m' =>
      rw [hr] at hthen
      exact ihn a hthen (hp.2 a)
    | error e m' =>
      rw [hr] at hthen
      exact hthen
  | within a p ihp =>
    rw [Plan.perform, Around.perform_eq]
    exact ihp (Q := fun r => Q (a.leave m r)) h hp

end Plan.Meets

/-- All plans keep the contract. -/
def Contract.Kept (env : Env) (C : Contract γ) : Prop :=
  ∀ {α : Type} (g : γ) (t : Task α) (m : Machine), C.before g t m →
    (t.plan env).Meets env C (C.after g t m) m

/-- What holds of a call where it holds of all smaller ones holds of all calls. -/
theorem Task.below_induction {P : ∀ {α : Type}, Task α → Prop}
    (h : ∀ {α : Type} (t : Task α), (∀ {β : Type} (t' : Task β), t'.Below t → P t') → P t)
    {α : Type} (t : Task α) : P t :=
  h t fun t' _ => below_induction h t'
termination_by (t.depth, t.code.size, t.code.rounds)
decreasing_by
  rename_i hbelow
  rcases hbelow with hdepth | ⟨hdepth, hsize | ⟨hsize, hrounds⟩⟩
  · exact .left _ _ hdepth
  · rw [hdepth]
    exact .right _ (.left _ _ hsize)
  · rw [hdepth, hsize]
    exact .right _ (.right _ hrounds)

/-- Calls keep a contract that their plans keep. -/
theorem Contract.Kept.perform {C : Contract γ} (hC : C.Kept env) {α : Type} (t : Task α) (g : γ)
    (m : Machine) (h : C.before g t m) : C.after g t m (t.perform env m) := by
  induction t using Task.below_induction generalizing g m with
  | h t ih =>
    rw [← t.perform_plan]
    exact (hC g t m h).perform t.plan_below fun t' g m hbelow h => ih t' hbelow g m h

namespace Plan

/-- The calls that a plan makes, with the machines that they begin with. -/
inductive Makes (env : Env) {β : Type} (t : Task β) (m' : Machine) :
    {α : Type} → Plan α → Machine → Prop
  | call : Makes env t m' (.call t) m'
  | first {α δ : Type} {p : Plan α} {next : α → Plan δ} {m : Machine} (h : Makes env t m' p m) :
      Makes env t m' (.bind p next) m
  | then {α δ : Type} {p : Plan α} {next : α → Plan δ} {m m₁ : Machine} {a : α}
      (hp : p.perform env m = .ok a m₁) (h : Makes env t m' (next a) m₁) :
      Makes env t m' (.bind p next) m
  | within {α : Type} {a : Around} {p : Plan α} {m : Machine} (h : Makes env t m' p (a.enter m)) :
      Makes env t m' (.within a p) m

variable {t : Task β} {p : Plan α} {m m' : Machine}

/-- What holds when a call is made holds of the calls in its plan, where calls do what they promise. -/
theorem Makes.before_of {C : Contract γ}
    (hC : ∀ {δ : Type} (t : Task δ) g m, C.before g t m → C.after g t m (t.perform env m))
    (h : Makes env t m' p m) {Q : EStateM.Result Stop Machine α → Prop} (hp : p.Meets env C Q m) :
    ∃ g, C.before g t m' := by
  induction h with
  | call =>
    obtain ⟨g, hb, -⟩ := hp
    exact ⟨g, hb⟩
  | @first _ _ p next m h ih => exact ih (Q := Run.Then Q fun a => (next a).Meets env C Q) hp
  | @«then» _ _ p next m m₁ a he h ih =>
    have hthen := Meets.perform (Q := Run.Then Q fun a => (next a).Meets env C Q) hp
      (Calls.of_forall (P := fun _ => True) (fun _ => trivial) p) fun t g m _ => hC t g m
    rw [he] at hthen
    exact ih hthen
  | @within _ a p m h ih => exact ih (Q := fun r => Q (a.leave m r)) hp

theorem Makes.before {C : Contract γ} (hC : C.Kept env) (h : Makes env t m' p m)
    {Q : EStateM.Result Stop Machine α → Prop} (hp : p.Meets env C Q m) : ∃ g, C.before g t m' :=
  h.before_of (fun t g m => hC.perform t g m) hp

/-- The calls that a plan makes are among those that it may make. -/
theorem Makes.calls {P : ∀ {δ : Type}, Task δ → Prop} (h : Makes env t m' p m) (hp : p.Calls P) :
    P t := by
  induction h with
  | call => exact hp
  | first h ih => exact ih hp.1
  | «then» he h ih => exact ih (hp.2 _)
  | within h ih => exact ih hp

/-- No plan catches a fault of a call that it makes. -/
theorem Makes.raises {f : Fault} (h : Makes env t m' p m) (hf : Run.Raises f (t.perform env m')) :
    Run.Raises f (p.perform env m) := by
  induction h with
  | call => exact hf
  | first h ih =>
    obtain ⟨pos, m₁, hp⟩ := ih
    exact ⟨pos, m₁, by simp only [perform, Bind.bind, EStateM.bind, hp]⟩
  | «then» he h ih =>
    simp only [perform, Bind.bind, EStateM.bind, he]
    exact ih
  | within h ih =>
    rw [perform, Around.perform_eq]
    exact Around.raises_leave.mpr ih

/-- What a plan does itself has a property. -/
def Acts (Q : ∀ {α : Type}, Run α → Prop) {α : Type} : Plan α → Prop
  | action x => Q x
  | call _ => True
  | bind p next => p.Acts Q ∧ ∀ a, (next a).Acts Q
  | within _ p => p.Acts Q

theorem Own.acts {Q : ∀ {α : Type}, Run α → Prop} {P : ∀ {β : Type}, Task β → Prop}
    (h : p.Own Q P) : p.Acts Q := by
  induction p with
  | action x => exact h
  | call t => trivial
  | bind p next ihp ihn => exact ⟨ihp h.1, fun a => ihn a (h.2 a)⟩
  | within a p ih =>
    cases a with
    | located | holding => exact ih h
    | activating => exact h.elim

/-- A fault that a plan does not find itself comes from one of the calls that it makes. -/
theorem Acts.exists_raises {f : Fault} {Q : ∀ {α : Type}, Run α → Prop} (hp : p.Acts Q)
    (hQ : ∀ {α : Type} (x : Run α), Q x → ∀ m, ¬ Run.Raises f (x m))
    (h : Run.Raises f (p.perform env m)) :
    ∃ (δ : Type) (t' : Task δ) (m₁ : Machine), Makes env t' m₁ p m ∧ Run.Raises f (t'.perform env m₁) := by
  induction p generalizing m with
  | action x => exact absurd h (hQ x hp m)
  | call t' => exact ⟨_, t', m, .call, h⟩
  | bind p next ihp ihn =>
    obtain ⟨pos, m₁, he⟩ := h
    rcases EStateM.bind_eq_error_iff.mp he with hr | ⟨a, m₂, hr, he⟩
    · obtain ⟨δ, t', m', hmakes, hraises⟩ := ihp hp.1 ⟨pos, m₁, hr⟩
      exact ⟨δ, t', m', .first hmakes, hraises⟩
    · obtain ⟨δ, t', m', hmakes, hraises⟩ := ihn a (hp.2 a) ⟨pos, m₁, he⟩
      exact ⟨δ, t', m', .then hr hmakes, hraises⟩
  | within a p ih =>
    rw [perform, Around.perform_eq] at h
    obtain ⟨δ, t', m', hmakes, hraises⟩ := ih hp (Around.raises_leave.mp h)
    exact ⟨δ, t', m', .within hmakes, hraises⟩

end Plan

namespace Task

/-- The calls that are made on the way of a call. -/
inductive Reaches (env : Env) {α : Type} (t : Task α) (m : Machine) :
    {β : Type} → Task β → Machine → Prop
  | refl : Reaches env t m t m
  | tail {β δ : Type} {t₁ : Task β} {t₂ : Task δ} {m₁ m₂ : Machine} (h₁ : Reaches env t m t₁ m₁)
      (h : Plan.Makes env t₂ m₂ (t₁.plan env) m₁) : Reaches env t m t₂ m₂

/-- What holds when a call is made holds of all calls on its way. -/
theorem Reaches.before {C : Contract γ} (hC : C.Kept env) {t : Task α} {t' : Task β} {m m' : Machine}
    (h : t.Reaches env m t' m') {g : γ} (hb : C.before g t m) : ∃ g, C.before g t' m' := by
  induction h with
  | refl => exact ⟨g, hb⟩
  | tail h₁ h ih =>
    obtain ⟨g', hb'⟩ := ih
    exact h.before hC (hC g' _ _ hb')

theorem Reaches.head {t : Task α} {t₁ : Task β} {t₂ : Task δ} {m m₁ m₂ : Machine}
    (h : Plan.Makes env t₁ m₁ (t.plan env) m) (h₁ : t₁.Reaches env m₁ t₂ m₂) :
    t.Reaches env m t₂ m₂ := by
  induction h₁ with
  | refl => exact .tail .refl h
  | tail h₁ h₂ ih => exact .tail ih h₂

/-- No call on the way catches a fault. -/
theorem Reaches.raises {t : Task α} {t' : Task β} {m m' : Machine} (h : t.Reaches env m t' m')
    {f : Fault} (hf : Run.Raises f (t'.perform env m')) : Run.Raises f (t.perform env m) := by
  induction h with
  | refl => exact hf
  | tail h₁ h ih =>
    refine ih ?_
    rw [← perform_plan]
    exact h.raises hf

end Task

/-!
## The search for a call

What a given run reaches is found by making its calls, as far as a bound on their number on the way.
-/

/-- Whether a plan makes a call that passes a test. -/
def Plan.finds (env : Env) (test : {β : Type} → Task β → Machine → Bool) {α : Type} :
    Plan α → Machine → Bool
  | action _, _ => false
  | call t, m => test t m
  | bind p next, m => p.finds env test m ||
    match p.perform env m with
    | .ok a m₁ => (next a).finds env test m₁
    | .error _ _ => false
  | within a p, m => p.finds env test (a.enter m)

/-- Whether a call, or one on its way at most some steps further, passes a test. -/
def Task.finds (env : Env) (test : {β : Type} → Task β → Machine → Bool) :
    Nat → {α : Type} → Task α → Machine → Bool
  | 0, _, t, m => test t m
  | steps + 1, _, t, m => test t m || (t.plan env).finds env (finds env test steps) m

section Search

variable {test : {β : Type} → Task β → Machine → Bool} {m : Machine}

theorem Plan.exists_makes {p : Plan α} (h : p.finds env test m) :
    ∃ (β : Type) (t : Task β) (m' : Machine), Makes env t m' p m ∧ test t m' := by
  induction p generalizing m with
  | action x => cases h
  | call t => exact ⟨_, t, m, .call, h⟩
  | bind p next ihp ihn =>
    simp only [finds, Bool.or_eq_true] at h
    rcases h with h | h
    · obtain ⟨β, t, m', hmakes, htest⟩ := ihp h
      exact ⟨β, t, m', .first hmakes, htest⟩
    · split at h
      next a m₁ hp =>
        obtain ⟨β, t, m', hmakes, htest⟩ := ihn a h
        exact ⟨β, t, m', .then hp hmakes, htest⟩
      next => cases h
  | within a p ih =>
    obtain ⟨β, t, m', hmakes, htest⟩ := ih h
    exact ⟨β, t, m', .within hmakes, htest⟩

theorem Task.exists_reaches {steps : Nat} {t : Task α} (h : t.finds env test steps m) :
    ∃ (β : Type) (t' : Task β) (m' : Machine), t.Reaches env m t' m' ∧ test t' m' := by
  induction steps generalizing α t m with
  | zero => exact ⟨α, t, m, .refl, h⟩
  | succ steps ih =>
    simp only [finds, Bool.or_eq_true] at h
    rcases h with h | h
    · exact ⟨α, t, m, .refl, h⟩
    · obtain ⟨β, t₁, m₁, hmakes, h⟩ := Plan.exists_makes h
      obtain ⟨δ, t', m', hreaches, htest⟩ := ih h
      exact ⟨δ, t', m', .head hmakes hreaches, htest⟩

end Search

end Pascal
