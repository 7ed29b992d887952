import Pascal.Proofs.Program.Session
import Pascal.Proofs.Run.Relation

/-!
# The limit of active routines

How many routines may be active at once only bounds a run. The limit is looked at in one place, where a
routine is called while no more of them may be active, and all that happens there is that the run stops.
So a run that does not stop for this reason goes on in the same way under each higher limit.
-/

namespace Pascal

namespace Run

variable {α β : Type} {x y : Run α}

/-- A computation does what another one does, as long as it does not stop since too many routines are
active. -/
def Under (x y : Run α) : Prop := ∀ m, (∃ limit, Raises (.stackOverflow limit) (x m)) ∨ y m = x m

namespace Under

theorem refl (x : Run α) : Under x x := fun _ => .inr rfl

theorem bind {f g : α → Run β} (h : Under x y) (hf : ∀ a, Under (f a) (g a)) :
    Under (x >>= f) (y >>= g) := by
  intro m
  simp only [Raises, Bind.bind, EStateM.bind]
  rcases h m with ⟨limit, pos, m', hx⟩ | hsame
  · rw [hx]
    exact .inl ⟨limit, pos, m', rfl⟩
  · rw [hsame]
    cases x m with
    | ok a m' => exact hf a m'
    | error e m' => exact .inr rfl

theorem within (a : Around) (h : Under x y) : Under (a.perform x) (a.perform y) := by
  intro m
  rw [a.perform_eq, a.perform_eq]
  rcases h (a.enter m) with ⟨limit, hx⟩ | hsame
  · exact .inl ⟨limit, Around.raises_leave.mpr hx⟩
  · rw [hsame]
    exact .inr rfl

theorem congruence : Congruence Under where
  inert _ := refl _
  bind := bind
  located pos h := h.within (.located pos)
  holding vs h := h.within (.holding vs)
  activating f h := h.within (.activating f)

end Under

end Run

namespace Env

variable {env env' : Env}

/-- Apart from the limit, two environments are the same. -/
theorem under (depth : Nat)
    (h : env' = { env with settings := { env.settings with maxCallDepth := depth } }) :
    env.Parallel Run.Under env' := by
  subst h
  exact ⟨⟨⟨rfl, fun _ _ _ _ _ => .refl _⟩, rfl, .refl _, fun _ _ => .refl _⟩, rfl⟩

/-- How deep a call stands makes no difference where the routine has no body. -/
theorem callWithin_of_none {id : Nat} (h : (env.program.arena.function id).body = none) (depth : Nat)
    (chain : Chain) (args : List Passed) :
    env.callWithin depth chain id args = Run.fail (.internal "routine has no body") := by
  cases depth <;> rw [callWithin, h]

/-- Calls do the same where more of them may nest. -/
theorem Parallel.callWithin_le (he : env.Parallel Run.Under env') {depth depth' : Nat}
    (h : depth ≤ depth') : (env.callWithin depth).Related Run.Under (env'.callWithin depth') := by
  induction depth generalizing depth' with
  | zero =>
    intro chain id args
    cases hbody : (env.program.arena.function id).body with
    | none =>
      rw [callWithin_of_none hbody, callWithin_of_none (he.program ▸ hbody)]
      exact .refl _
    | some body =>
      rw [Env.callWithin, hbody]
      exact fun m => .inl ⟨_, none, m, rfl⟩
  | succ depth ih =>
    obtain ⟨more, rfl⟩ := Nat.exists_eq_add_one_of_ne_zero (Nat.ne_zero_of_lt h)
    intro chain id args
    rw [Env.callWithin, Env.callWithin, he.program]
    cases (env.program.arena.function id).body with
    | none => exact .refl _
    | some body => exact he.activate Run.Under.congruence (ih (Nat.le_of_succ_le_succ h)) _ body args

end Env

namespace Program

/-- The limit of active routines is nothing but a limit. A run that does not end since too many routines
are active ends in the same way under each higher limit and on the same machine: with the same position
if it fails, and the same screen, files and reports. -/
theorem run_deeper (p : Program) {settings : Settings} {depth : Nat}
    (hdepth : settings.maxCallDepth ≤ depth) {l : Option Listener} {n : Nat} {w : World}
    (h : ∀ limit pos, (p.run settings l n w).1 ≠ .failed (.stackOverflow limit) pos) :
    p.run { settings with maxCallDepth := depth } l n w = p.run settings l n w := by
  unfold run at h ⊢
  generalize p.globalFrames (p.units.map (·.scope) ++ [p.main]) w = g at h ⊢
  obtain ⟨globals, world⟩ := g
  have hparallel : Env.Parallel Run.Under ⟨p, settings, l, globals, n⟩
      ⟨p, { settings with maxCallDepth := depth }, l, globals, n⟩ := Env.under depth rfl
  have hstages := hparallel.stages Run.Under.congruence (hparallel.callWithin_le hdepth)
  dsimp only at h hstages ⊢
  rcases hstages { world } with ⟨limit, pos, m, hover⟩ | hsame
  · rw [hover] at h
    exact absurd rfl (h limit pos)
  · rw [hsame]

end Program

namespace Toolchain

/-- The hypotheses hold of a routine that calls itself, under a limit that it just keeps to. -/
theorem run_deeper_recursive : ∃ p : Program, standard.compile "test"
      "procedure down(n: integer); begin if n > 0 then down(n - 1); write(n) end; begin down(3) end." =
        .ok p ∧
    p.run { maxCallDepth := 1000 } none 100 { console := .ofInput "" } =
      p.run { maxCallDepth := 4 } none 100 { console := .ofInput "" } := by
  have hcompletes : (standard.compile "test"
      "procedure down(n: integer); begin if n > 0 then down(n - 1); write(n) end; begin down(3) end."
      ).toOption.any (fun p => (p.run { maxCallDepth := 4 } none 100 { console := .ofInput "" }).1 ==
        .completed) = true := by decide +kernel
  obtain ⟨p, hp, hcompletes⟩ := exists_ok_of_any hcompletes
  have hle : ({ maxCallDepth := 4 } : Settings).maxCallDepth ≤ 1000 := by decide
  refine ⟨p, hp, p.run_deeper hle fun limit pos h => ?_⟩
  rw [eq_of_beq hcompletes] at h
  cases h

end Toolchain

end Pascal
