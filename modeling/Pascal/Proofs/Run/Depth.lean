import Pascal.Proofs.Library.Standard
import Pascal.Proofs.Run.Calm
import Pascal.Proofs.Run.Program

/-!
# How deep calls nest

All calls leave the routines that are active as they were, however they end. The routines of a program
that are active are those called on the way, and so a call knows how many more may be active inside it.
A run finds too many of them where a routine is called inside as many as are allowed, and nowhere else.
-/

namespace Pascal

variable {α β γ δ : Type} {env : Env} {m m' m₁ m₂ : Machine}

namespace Task

variable {t : Task α} {t' : Task β} {t₁ : Task γ} {t₂ : Task δ}

/-- How a call goes on with another one: it sees the same frames, or it is the body of a routine that is
called, which sees a frame of its own. -/
inductive Passes (env : Env) : {α β : Type} → Task α → Machine → Task β → Machine → Prop
  | same {α β : Type} {t : Task α} {t' : Task β} {m m' : Machine}
      (hcode : t.code.isActivation = false) (hchain : t'.chain = t.chain) (hdepth : t'.depth = t.depth)
      (hactive : m'.active = m.active) : Passes env t m t' m'
  | body {id : Nat} {passed : List Passed} {chain : Chain} {depth : Nat} {body : Stmt} {f : Frame}
      {m m' : Machine} (hbody : (env.program.arena.function id).body = some body)
      (hscope : f.scope = (env.program.arena.function id).scope) (hactive : m'.active = f :: m.active) :
      Passes env ⟨.call (.user id) passed, chain, depth + 1⟩ m
        ⟨.stmt body, f :: (env.program.arena.function id).outerFrames chain, depth⟩ m'

/-- A plan is calm where the calls that its call goes on with promise to be so. -/
theorem plan_calm {C : Contract γ} (t : Task α) (m : Machine)
    (hC : ∀ {β : Type} (t' : Task β) m', t.Passes env m t' m' →
      ∃ g, C.before g t' m' ∧ ∀ r, C.after g t' m' r → (Run.after r).active = m'.active) :
    (t.plan env).Meets env C (Run.Calm (fun _ => True) m) m := by
  have hC : ∀ {β : Type} (t' : Task β) m', t.Passes env m t' m' → ∃ g, C.before g t' m' ∧
      ∀ r, C.after g t' m' r → Run.Calm (fun _ => True) m' r := fun t' m' h => by
    obtain ⟨g, hb, ha⟩ := hC t' m' h
    exact ⟨g, hb, fun r hr => ⟨ha r hr, fun _ _ _ _ => trivial⟩⟩
  obtain ⟨code, chain, depth⟩ := t
  cases hcode : code.isActivation with
  | false =>
    have hfinds : Run.Finds env ⟨code, chain, depth⟩ fun _ => True :=
      ⟨fun _ _ => trivial, trivial, fun _ _ _ _ => trivial, fun _ _ _ _ _ _ _ _ _ => trivial,
        fun _ _ _ => trivial⟩
    refine ((plan_own _ hcode).mono (fun _ h => h.still hfinds) fun _ h => h).meets
      (fun t' m' ht hm => ?_) rfl
    exact hC t' m' (.same hcode ht.chain ht.depth hm)
  | true =>
    cases code with
    | call callee passed =>
      cases callee with
      | user id =>
        simp only [plan, Env.planCall]
        split
        · exact .action (.fault rfl trivial)
        · next body hbody =>
          cases depth with
          | zero => exact .action (.fault rfl trivial)
          | succ depth =>
            refine Env.planActivation_meets fun w m' hm' => ⟨?_, hC _ m' (.body hbody rfl hm')⟩
            unfold Run.result
            split
            · exact .pure none
            · split
              · exact .fail trivial
              · exact (Run.Still.get (fun _ _ => trivial) _).map some
      | native id => cases hcode
    | _ => cases hcode

/-- All calls leave the routines that are active as they were, however they end. -/
theorem active_perform (t : Task α) (m : Machine) :
    (Run.after (t.perform env m)).active = m.active := by
  let C : Contract Unit :=
    { before := fun _ _ _ => True, after := fun _ _ m r => (Run.after r).active = m.active }
  have hkept : C.Kept env := fun _ t m _ =>
    (t.plan_calm m fun _ _ _ => ⟨(), trivial, fun _ hr => hr⟩).mono fun _ hr => hr.active
  exact hkept.perform t () m trivial

/-- The calls in the plan of a call are those that it goes on with. -/
theorem passes_of_makes (h : Plan.Makes env t' m' (t.plan env) m) : t.Passes env m t' m' := by
  let C : Contract Unit :=
    { before := fun _ t' m' => t.Passes env m t' m'
      after := fun _ _ m r => (Run.after r).active = m.active }
  obtain ⟨_, hpasses⟩ := h.before_of (C := C) (fun t _ m _ => t.active_perform m)
    (t.plan_calm m fun _ _ h => ⟨(), h, fun _ hr => hr⟩)
  exact hpasses

/-- The calls that are made on the way of a call, each with the number of routines of the program that
have been called on the way to it and have not ended. -/
inductive Nests (env : Env) {α : Type} (t : Task α) (m : Machine) :
    {β : Type} → Nat → Task β → Machine → Prop
  | refl : Nests env t m 0 t m
  | tail {β δ : Type} {n : Nat} {t₁ : Task β} {t₂ : Task δ} {m₁ m₂ : Machine}
      (h₁ : Nests env t m n t₁ m₁) (h : Plan.Makes env t₂ m₂ (t₁.plan env) m₁) :
      Nests env t m (n + t₁.code.isActivation.toNat) t₂ m₂

theorem reaches_iff_nests : t.Reaches env m t' m' ↔ ∃ n, t.Nests env m n t' m' := by
  constructor
  · intro h
    induction h with
    | refl => exact ⟨0, .refl⟩
    | tail h₁ h ih =>
      obtain ⟨n, hn⟩ := ih
      exact ⟨_, .tail hn h⟩
  · rintro ⟨n, h⟩
    induction h with
    | refl => exact .refl
    | tail h₁ h ih => exact .tail ih h

/-- The current frame of a call is that of the last routine that has become active. -/
def Current (t : Task α) (m : Machine) : Prop := t.chain.head? = m.active.head?

/-- On the way of a call, each routine that is called is one more that is active and one less that may
be so. -/
theorem Nests.counts {n : Nat} (h : t.Nests env m n t' m') :
    m'.active.length = m.active.length + n ∧ t'.depth + n = t.depth ∧ (t.Current m → t'.Current m') := by
  induction h with
  | refl => exact ⟨rfl, rfl, id⟩
  | tail h₁ h ih =>
    obtain ⟨hactive, hdepth, hcurrent⟩ := ih
    cases passes_of_makes h with
    | same hcode hchain hdepth' hactive' =>
      refine ⟨?_, ?_, fun hc => ?_⟩
      · rw [hactive', hactive, hcode]
        rfl
      · rw [hdepth', hcode]
        exact hdepth
      · rw [Current, hchain, hactive']
        exact hcurrent hc
    | body hbody hscope hactive' =>
      refine ⟨?_, ?_, fun _ => ?_⟩
      · rw [hactive', List.length_cons, hactive]
        rfl
      · change _ + (_ + 1) = _
        rw [← hdepth, Nat.add_assoc, Nat.add_comm 1]
      · rw [Current, hactive']
        rfl

/-- A routine with a body is called where no more of them may be active. -/
inductive AtLimit (env : Env) : {α : Type} → Task α → Prop
  | call {id : Nat} {passed : List Passed} {chain : Chain}
      (h : (env.program.arena.function id).body.isSome) : AtLimit env ⟨.call (.user id) passed, chain, 0⟩

/-- Such a call stops the run, and that is all it does. -/
theorem AtLimit.perform_eq (h : t.AtLimit env) (m : Machine) :
    t.perform env m = .error (.fault (.stackOverflow env.settings.maxCallDepth) none) m := by
  obtain ⟨hbody⟩ := h
  obtain ⟨body, hbody⟩ := Option.isSome_iff_exists.mp hbody
  simp only [perform, Env.call, Env.callWithin, hbody]
  rfl

/-- No other call finds itself that too many routines are active. -/
theorem plan_acts (hn : ∀ (id : Nat) r, env.program.arena.natives[id]? = some r → r.Shallow)
    (t : Task α) (h : ¬ t.AtLimit env) {n : Nat} :
    (t.plan env).Acts fun x => ∀ m, ¬ Run.Raises (.stackOverflow n) (x m) := by
  have hstill : ∀ {α : Type} {x : Run α}, Run.Still (fun f => f.isOverflow = false) x → ∀ m,
      ¬ Run.Raises (.stackOverflow n) (x m) := by
    rintro α x hx m ⟨pos, m', he⟩
    exact absurd ((hx m).sound _ _ _ he) (by simp [Fault.isOverflow])
  have hplain : ∀ f : Fault, f.isReserved = false → f.isOverflow = false :=
    fun _ => Fault.not_isOverflow
  obtain ⟨code, chain, depth⟩ := t
  cases hcode : code.isActivation with
  | false =>
    have hfinds : Run.Finds env ⟨code, chain, depth⟩ fun f => f.isOverflow = false :=
      ⟨hplain, rfl, fun v _ f hf => env.variableRef_shallow hf, fun id _ r hr => hn id r hr,
        fun _ _ _ => rfl⟩
    exact ((plan_own _ hcode).mono (fun _ hx => hstill (hx.still hfinds)) fun _ h => h).acts
  | true =>
    cases code with
    | call callee passed =>
      cases callee with
      | user id =>
        simp only [plan, Env.planCall]
        split
        · exact hstill (.fail rfl)
        · next body hbody =>
          cases depth with
          | zero => exact absurd (.call (by rw [hbody]; rfl)) h
          | succ depth =>
            refine ⟨hstill (.onWorld _), fun frame => ⟨trivial, fun _ => ⟨hstill ?_, fun result =>
              ⟨hstill (.releaseForgotten env _), fun _ => hstill (.pure result)⟩⟩⟩⟩
            split
            · exact .pure none
            · split
              · exact .fail rfl
              · exact (Run.Still.get hplain _).map some
      | native id => cases hcode
    | _ => cases hcode

/-- A call finds too many routines where such a call is on its way, and nowhere else. -/
theorem overflow_iff (hn : ∀ (id : Nat) r, env.program.arena.natives[id]? = some r → r.Shallow)
    (t : Task α) {m : Machine} {n : Nat} : Run.Raises (.stackOverflow n) (t.perform env m) ↔
      n = env.settings.maxCallDepth ∧ ∃ (β : Type) (t' : Task β) (m' : Machine),
        t.Reaches env m t' m' ∧ t'.AtLimit env := by
  constructor
  · intro h
    induction t using below_induction generalizing m with
    | h t ih =>
      by_cases hlimit : t.AtLimit env
      · rw [hlimit.perform_eq] at h
        obtain ⟨pos, m', he⟩ := h
        cases he
        exact ⟨rfl, _, t, m, .refl, hlimit⟩
      · rw [← t.perform_plan] at h
        obtain ⟨β, t', m', hmakes, hraises⟩ := (t.plan_acts hn hlimit).exists_raises (fun _ hx => hx) h
        obtain ⟨hsame, γ, t'', m'', hreaches, hat⟩ := ih t' (hmakes.calls t.plan_below) hraises
        exact ⟨hsame, γ, t'', m'', .head hmakes hreaches, hat⟩
  · rintro ⟨rfl, β, t', m', hreaches, hat⟩
    exact hreaches.raises ⟨none, m', hat.perform_eq m'⟩

end Task

end Pascal
