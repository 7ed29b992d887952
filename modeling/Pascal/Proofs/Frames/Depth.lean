import Pascal.Proofs.Frames.Run
import Pascal.Proofs.Run.Depth

/-!
# How deep the calls of a run nest

A run begins each of its statements with no routine active. From there on the number of routines that
are active and the number of those that may still be so make up the limit together, and a run ends
since too many routines are active where one is called with the limit reached.
-/

namespace Pascal

variable {α β : Type} {p : Program} {l : Launch} {t : Task α} {m : Machine} {n : Nat}

/-- The calls of the plan of a call are for code of some scope, as the call is. -/
theorem Program.Scoped.plan_calls (env : Env) (h : env.program.Scoped)
    (ht : ∃ scope, t.code.Scoped env.program.arena scope) :
    (t.plan env).Calls fun t' => ∃ scope, t'.code.Scoped env.program.arena scope := by
  obtain ⟨code, chain, depth⟩ := t
  obtain ⟨scope, hscope⟩ := ht
  cases hcode : code.isActivation with
  | false =>
    exact ((Task.plan_scoped code hscope hcode).mono (fun _ h => h) fun _ h => ⟨scope, h⟩).calls
  | true =>
    cases code with
    | call callee passed =>
      cases callee with
      | user id =>
        obtain ⟨body, hbody⟩ := h.bodies id hscope.1
        simp only [Task.plan, Env.planCall, hbody]
        cases depth with
        | zero => trivial
        | succ depth =>
          exact ⟨trivial, fun _ => ⟨⟨_, h.functions id body hbody⟩, fun _ => ⟨trivial, fun _ =>
            ⟨trivial, fun _ => trivial⟩⟩⟩⟩
      | native id => cases hcode
    | _ => cases hcode

/-- What is known of a call by the number of routines of the program that are called around it. -/
structure Task.Counts (env : Env) (n : Nat) (t : Task α) (m : Machine) : Prop where
  active : m.active.length = n
  depth : t.depth + n = env.settings.maxCallDepth
  current : t.Current m

theorem Env.planStages_own {env : Env} {P : Fault → Prop} {T : ∀ {β : Type}, Task β → Prop}
    {ss : List Stmt} (hT : ∀ s ∈ ss, T ⟨.stmt s, [], env.settings.maxCallDepth⟩) :
    (env.planStages ss).Own (Run.Still P) T := by
  induction ss with
  | nil => exact .pure ()
  | cons s ss ih =>
    obtain ⟨hs, hss⟩ := List.forall_mem_cons.mp hT
    exact ⟨hs, fun _ => ih hss⟩

namespace Program

/-- The calls that a run makes, each with the number of routines of the program that have been called on
the way to it and have not ended. -/
def Nests (p : Program) (l : Launch) (n : Nat) (t : Task α) (m : Machine) : Prop :=
  ∃ (β : Type) (t₀ : Task β) (m₀ : Machine),
    Plan.Makes (p.env l) t₀ m₀ (p.plan l) (p.start l) ∧ t₀.Nests (p.env l) m₀ n t m

theorem reaches_iff_nests : p.Reaches l t m ↔ ∃ n, p.Nests l n t m := by
  constructor
  · rintro ⟨β, t₀, m₀, h₀, h⟩
    obtain ⟨n, hn⟩ := Task.reaches_iff_nests.mp h
    exact ⟨n, β, t₀, m₀, h₀, hn⟩
  · rintro ⟨n, β, t₀, m₀, h₀, hn⟩
    exact ⟨β, t₀, m₀, h₀, Task.reaches_iff_nests.mpr ⟨n, hn⟩⟩

/-- The statements of a run begin with no routine active. -/
theorem stage_begins {T : ∀ {β : Type}, Task β → Prop}
    (hT : ∀ s ∈ p.stages, T ⟨.stmt s, [], l.settings.maxCallDepth⟩) {t₀ : Task β} {m₀ : Machine}
    (h : Plan.Makes (p.env l) t₀ m₀ (p.plan l) (p.start l)) : T t₀ ∧ m₀.active = [] := by
  let C : Contract Unit :=
    { before := fun _ t m => T t ∧ m.active = []
      after := fun _ _ m r => (Run.after r).active = m.active }
  have hmeets : (p.plan l).Meets (p.env l) C (Run.Calm (fun _ => True) (p.start l)) (p.start l) :=
    (Env.planStages_own hT).meets (fun t m ht hm => ⟨(), ⟨ht, hm⟩, fun r hr => ⟨hr, fun _ _ _ _ => trivial⟩⟩) rfl
  obtain ⟨_, hbefore⟩ := h.before_of (C := C) (fun t _ m _ => t.active_perform m) hmeets
  exact hbefore

theorem Nests.counts (h : p.Nests l n t m) : t.Counts (p.env l) n m := by
  obtain ⟨β, t₀, m₀, h₀, h⟩ := h
  obtain ⟨⟨hchain, hdepth⟩, hactive⟩ := stage_begins (T := fun t => t.chain = [] ∧
    t.depth = l.settings.maxCallDepth) (fun _ _ => ⟨rfl, rfl⟩) h₀
  obtain ⟨hlength, hdepths, hcurrent⟩ := h.counts
  refine ⟨?_, ?_, hcurrent ?_⟩
  · rw [hlength, hactive, List.length_nil, Nat.zero_add]
  · rw [hdepths, hdepth]
    rfl
  · rw [Task.Current, hchain, hactive]

/-- No more routines are active than are allowed. -/
theorem Reachable.active_le (h : p.Reachable l m) : m.active.length ≤ l.settings.maxCallDepth := by
  have hle : ∀ {α : Type} {t : Task α} {m : Machine}, p.Reaches l t m →
      m.active.length ≤ l.settings.maxCallDepth := by
    intro α t m h
    obtain ⟨n, hn⟩ := reaches_iff_nests.mp h
    rw [hn.counts.active]
    exact (Nat.le_add_left ..).trans_eq hn.counts.depth
  cases h with
  | start => exact Nat.zero_le _
  | begins h => exact hle h
  | ends h =>
    rw [Task.active_perform]
    exact hle h

theorem Reaches.raises {f : Fault} (h : p.Reaches l t m)
    (hf : Run.Raises f (t.perform (p.env l) m)) :
    Run.Raises f ((p.plan l).perform (p.env l) (p.start l)) := by
  obtain ⟨β, t₀, m₀, h₀, h⟩ := h
  exact h₀.raises (h.raises hf)

/-- A run that finds too many routines reaches the call of one with the limit reached. -/
theorem exists_atLimit (hn : ∀ (id : Nat) r, p.arena.natives[id]? = some r → r.Shallow)
    (h : Run.Raises (.stackOverflow n) ((p.plan l).perform (p.env l) (p.start l))) :
    n = l.settings.maxCallDepth ∧ ∃ (β : Type) (t : Task β) (m : Machine), p.Reaches l t m ∧
      t.AtLimit (p.env l) := by
  have hown : (p.plan l).Own (Run.Still fun f => f.isOverflow = false) fun _ => True :=
    Env.planStages_own fun _ _ => trivial
  obtain ⟨β, t₀, m₀, h₀, hraises⟩ := hown.acts.exists_raises (fun x hx m ⟨pos, m', he⟩ =>
    absurd ((hx m).sound _ _ _ he) (by simp [Fault.isOverflow])) h
  obtain ⟨hsame, γ, t, m, hreaches, hat⟩ := (t₀.overflow_iff hn).mp hraises
  exact ⟨hsame, γ, t, m, ⟨β, t₀, m₀, h₀, hreaches⟩, hat⟩

theorem run_failed_iff {f : Fault} (hf : f ≠ .cancelled) (hc : f.isCrash = false) :
    (∃ pos, (p.run l.settings l.listener l.rounds l.world).1 = .failed f pos) ↔
      Run.Raises f ((p.plan l).perform (p.env l) (p.start l)) := by
  rw [p.run_eq]
  cases (p.plan l).perform (p.env l) (p.start l) with
  | ok a m => simp [Run.Raises]
  | error e m =>
    cases e with
    | exhausted => simp [Run.Raises, Outcome.ofStop]
    | fault g pos =>
      cases g with
      | crash what =>
        have hne : Fault.crash what ≠ f := fun h => by simp [← h, Fault.isCrash] at hc
        simp [Run.Raises, Outcome.ofStop, hne]
      | _ => simp [Run.Raises, Outcome.ofStop, Ne.symm hf]

/-- Code that a run reaches is code of some scope. -/
theorem Scoped.reaches (h : p.Scoped) (hr : p.Reaches l t m) :
    ∃ scope, t.code.Scoped p.arena scope := by
  obtain ⟨β, t₀, m₀, h₀, hr⟩ := hr
  have hbegin := (stage_begins (T := fun t => ∃ scope, t.code.Scoped p.arena scope) (fun s hs => by
    obtain ⟨scope, hscope, -⟩ := h.stages hs
    exact ⟨scope, hscope⟩) h₀).1
  induction hr with
  | refl => exact hbegin
  | tail h₁ hmakes ih => exact hmakes.calls (Scoped.plan_calls (p.env l) h ih)

/-- Routines that a run calls have bodies. -/
theorem Scoped.body_isSome (h : p.Scoped) {id : Nat} {passed : List Passed} {chain : Chain}
    {depth : Nat} (hr : p.Reaches l ⟨.call (.user id) passed, chain, depth⟩ m) :
    (p.arena.function id).body.isSome := by
  obtain ⟨scope, hscope⟩ := h.reaches hr
  obtain ⟨body, hbody⟩ := h.bodies id hscope.1
  rw [hbody]
  rfl

end Program

namespace Toolchain

/-- Calls keep to their depth. At every point of a run, as many routines of the program are active as
have been called on the way and have not ended; with those that may still be active they make up the
limit, and the frame that code sees first is that of the last of them. However a call ends, it leaves
the routines that are active as they were, and the next one from the same code sees the same frames and
the same depth again. A run ends since too many routines are active if and only if it calls a routine of
the program while as many are active as are allowed, and that call does nothing else. -/
theorem compile_depth {t : Toolchain} {unit source : String} {p : Program}
    (h : t.compile unit source = .ok p) (hl : ∀ l ∈ t.libraries, ∀ r ∈ l.routines, r.Shallow)
    (l : Launch) :
    (∀ m, p.Reachable l m → m.active.length ≤ l.settings.maxCallDepth) ∧
    (∀ {α : Type} (n : Nat) (task : Task α) (m : Machine), p.Nests l n task m →
      task.Counts (p.env l) n m ∧ (Run.after (task.perform (p.env l) m)).active = m.active ∧
      ∀ {β : Type} (next : Task β) m', Plan.Makes (p.env l) next m' (task.plan (p.env l)) m →
        task.Passes (p.env l) m next m') ∧
    (∀ id passed chain depth m, p.Reaches l ⟨.call (.user id) passed, chain, depth⟩ m →
      m.active.length = l.settings.maxCallDepth →
      Task.perform (p.env l) ⟨.call (.user id) passed, chain, depth⟩ m =
        .error (.fault (.stackOverflow l.settings.maxCallDepth) none) m) ∧
    ∀ n, (∃ pos, (p.run l.settings l.listener l.rounds l.world).1 = .failed (.stackOverflow n) pos) ↔
      n = l.settings.maxCallDepth ∧ ∃ id passed chain depth m,
        p.Reaches l ⟨.call (.user id) passed, chain, depth⟩ m ∧
        m.active.length = l.settings.maxCallDepth := by
  have hscoped := compile_scoped h
  have hdepth : ∀ {α : Type} {task : Task α} {m : Machine}, p.Reaches l task m →
      task.depth + m.active.length = l.settings.maxCallDepth := by
    intro α task m hr
    obtain ⟨n, hn⟩ := Program.reaches_iff_nests.mp hr
    rw [hn.counts.active]
    exact hn.counts.depth
  have hcall : ∀ id passed chain depth m, p.Reaches l ⟨.call (.user id) passed, chain, depth⟩ m →
      m.active.length = l.settings.maxCallDepth →
      Task.perform (p.env l) ⟨.call (.user id) passed, chain, depth⟩ m =
        .error (.fault (.stackOverflow l.settings.maxCallDepth) none) m := by
    intro id passed chain depth m hr hactive
    obtain rfl : depth = 0 := by
      have hsum := hdepth hr
      dsimp only at hsum
      omega
    exact (Task.AtLimit.call (hscoped.body_isSome hr)).perform_eq m
  refine ⟨fun m => Program.Reachable.active_le, fun n task m hn => ⟨hn.counts, task.active_perform m,
    fun next m' => task.passes_of_makes⟩, hcall, fun n => ?_⟩
  rw [Program.run_failed_iff (by simp) rfl]
  constructor
  · intro hraises
    have hshallow : ∀ (id : Nat) r, p.arena.natives[id]? = some r → r.Shallow := fun id r hr => by
      obtain ⟨lib, hmem, hr⟩ := compile_native_mem h hr
      exact hl lib hmem r hr
    obtain ⟨hsame, β, task, m, hr, hat⟩ := Program.exists_atLimit hshallow hraises
    cases hat with
    | @call id passed chain hbody =>
      exact ⟨hsame, id, passed, chain, 0, m, hr, by simpa using hdepth hr⟩
  · rintro ⟨rfl, id, passed, chain, depth, m, hr, hactive⟩
    exact hr.raises ⟨none, m, hcall id passed chain depth m hr hactive⟩

/-- The hypotheses hold of a routine that calls itself without end. -/
theorem compile_depth_endless : ∃ (p : Program) (l : Launch) (id : Nat) (passed : List Passed)
      (chain : Chain) (depth : Nat) (m : Machine),
    standard.compile "test" "procedure down(n: integer); begin down(n + 1) end; begin down(0) end." =
      .ok p ∧
    p.Reaches l ⟨.call (.user id) passed, chain, depth⟩ m ∧ m.active.length = 3 := by
  let text := "procedure down(n: integer); begin down(n + 1) end; begin down(0) end."
  let l : Launch := ⟨{ maxCallDepth := 3 }, none, 100, { console := .ofInput "" }⟩
  have hfails : (standard.compile "test" text).toOption.any fun p =>
      (p.run l.settings l.listener l.rounds l.world).1 ==
        .failed (.stackOverflow 3) (some ⟨"test", 1, 35⟩) := by decide +kernel
  obtain ⟨p, hp, hfails⟩ := exists_ok_of_any hfails
  obtain ⟨-, id, passed, chain, depth, m, hr, hm⟩ :=
    ((compile_depth hp Library.standard_shallow l).2.2.2 3).mp ⟨_, eq_of_beq hfails⟩
  exact ⟨p, l, id, passed, chain, depth, m, hp, hr, hm⟩

end Toolchain

end Pascal
