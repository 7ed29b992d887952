import Pascal.Proofs.Run.Relation

/-!
# Two runs side by side

Two runs of the same code are level as long as their machines differ in their signs alone, and the signs
stand in some relation. One of the runs may be cut: it stops as cancelled while the other one goes on.
-/

namespace Pascal

namespace Machine

/-- Machines that differ in their signs alone, which stand in a relation. -/
structure Level (V : Signs → Signs → Prop) (m₁ m₂ : Machine) : Prop where
  same : m₁ = m₂.withSigns m₁.signs
  signs : V m₁.signs m₂.signs

end Machine

namespace Around

variable {V : Signs → Signs → Prop} {m₁ m₂ : Machine}

theorem signs_enter (a : Around) (m : Machine) : (a.enter m).signs = m.signs := by cases a <;> rfl

theorem signs_leave {α : Type} (a : Around) (m : Machine) (r : EStateM.Result Stop Machine α) :
    (Run.after (a.leave m r)).signs = (Run.after r).signs := by
  cases a with
  | located pos => rw [after_leave_located]
  | holding vs => cases r <;> rfl
  | activating f => cases r <;> rfl

end Around

namespace Machine.Level

variable {V : Signs → Signs → Prop} {m₁ m₂ : Machine}

theorem held (h : m₁.Level V m₂) : m₁.held = m₂.held := by rw [h.same]; rfl

theorem active (h : m₁.Level V m₂) : m₁.active = m₂.active := by rw [h.same]; rfl

/-- Level machines are so with any signs that stand in the relation. -/
theorem withSigns (h : m₁.Level V m₂) {W : Signs → Signs → Prop} {s t : Signs} (hs : W s t) :
    (m₁.withSigns s).Level W (m₂.withSigns t) :=
  ⟨congrArg (·.withSigns s) h.same, hs⟩

/-- Level machines stay so with other values at hand. -/
theorem withHeld (h : m₁.Level V m₂) (vs : List Value) :
    Machine.Level V { m₁ with held := vs } { m₂ with held := vs } :=
  ⟨congrArg (fun m : Machine => { m with held := vs }) h.same, h.signs⟩

/-- Level machines stay so with other frames. -/
theorem withActive (h : m₁.Level V m₂) (fs : List Frame) :
    Machine.Level V { m₁ with active := fs } { m₂ with active := fs } :=
  ⟨congrArg (fun m : Machine => { m with active := fs }) h.same, h.signs⟩

theorem enter (a : Around) (h : m₁.Level V m₂) : (a.enter m₁).Level V (a.enter m₂) := by
  cases a with
  | located pos => exact h
  | holding vs => simpa only [Around.enter, h.held] using h.withHeld (vs ++ m₂.held)
  | activating f => simpa only [Around.enter, h.active] using h.withActive (f :: m₂.active)

end Machine.Level

namespace Run

variable {α β : Type} {V C : Signs → Signs → Prop}

/-- Results that are level, or of which the first one is cut. `C` is what the signs of the run that is
cut have to do with those of the other one from then on. -/
inductive Beside (V C : Signs → Signs → Prop) :
    EStateM.Result Stop Machine α → EStateM.Result Stop Machine α → Prop where
  | ok (a : α) {m₁ m₂ : Machine} (h : m₁.Level V m₂) : Beside V C (.ok a m₁) (.ok a m₂)
  | error (e : Stop) {m₁ m₂ : Machine} (h : m₁.Level V m₂) : Beside V C (.error e m₁) (.error e m₂)
  | cut (pos : Option Position) {m : Machine} {r : EStateM.Result Stop Machine α}
      (h : C m.signs (after r).signs) : Beside V C (.error (.fault .cancelled pos) m) r

/-- What surrounds a part of a run leaves results side by side. -/
theorem Beside.leave {r₁ r₂ : EStateM.Result Stop Machine α} {m₁ m₂ : Machine} (a : Around)
    (hm : m₁.Level V m₂) (h : Beside V C r₁ r₂) : Beside V C (a.leave m₁ r₁) (a.leave m₂ r₂) := by
  cases h with
  | ok v h =>
    cases a with
    | located pos => exact .ok v h
    | holding vs =>
      rw [Around.leave, Around.leave, hm.held]
      exact .ok v (h.withHeld _)
    | activating f =>
      rw [Around.leave, Around.leave, hm.active]
      exact .ok v (h.withActive _)
  | error e h =>
    cases a with
    | located pos =>
      cases e with
      | exhausted => exact .error _ h
      | fault f place => cases place <;> exact .error _ h
    | holding vs =>
      rw [Around.leave, Around.leave, hm.held]
      exact .error e (h.withHeld _)
    | activating f =>
      rw [Around.leave, Around.leave, hm.active]
      exact .error e (h.withActive _)
  | cut pos hs =>
    rw [← a.signs_leave m₂] at hs
    cases a with
    | located place => cases pos <;> exact .cut _ hs
    | holding vs => exact .cut pos hs
    | activating f => exact .cut pos hs

/-- Computations that go on side by side: from level machines they come to results of that kind, and
the second one goes on when the first one is cut. -/
structure Pair (V C : Signs → Signs → Prop) (x y : Run α) : Prop where
  beside : ∀ m₁ m₂, Machine.Level V m₁ m₂ → Beside V C (x m₁) (y m₂)
  goesOn : ∀ m s, C s m.signs → C s (after (y m)).signs

namespace Pair

theorem inert {x : Run α} (hx : x.Inert) : Pair V C x x where
  beside m₁ m₂ h := by
    have hblind := hx.blind m₂ m₁.signs
    have hsigns := hx.signs m₂
    have hlevel : ∀ m, m.signs = m₂.signs → Machine.Level V (m.withSigns m₁.signs) m := by
      intro m hm
      refine ⟨rfl, ?_⟩
      rw [Machine.signs_withSigns, hm]
      exact h.signs
    rw [← h.same] at hblind
    rw [hblind]
    cases hr : x m₂ with
    | ok a m => rw [hr] at hsigns; exact .ok a (hlevel m hsigns)
    | error e m => rw [hr] at hsigns; exact .error e (hlevel m hsigns)
  goesOn m s hs := by rwa [hx.signs m]

theorem bind {x y : Run α} {f g : α → Run β} (h : Pair V C x y) (hf : ∀ a, Pair V C (f a) (g a)) :
    Pair V C (x >>= f) (y >>= g) where
  beside m₁ m₂ hm := by
    have hbeside := h.beside m₁ m₂ hm
    simp only [Bind.bind, EStateM.bind]
    generalize x m₁ = r₁ at hbeside ⊢
    generalize y m₂ = r₂ at hbeside ⊢
    cases hbeside with
    | ok a h => exact (hf a).beside _ _ h
    | error e h => exact .error e h
    | cut pos hs =>
      refine .cut pos ?_
      cases r₂ with
      | ok a m => exact (hf a).goesOn m _ hs
      | error e m => exact hs
  goesOn m s hs := by
    have hy := h.goesOn m s hs
    simp only [Bind.bind, EStateM.bind]
    cases hr : y m with
    | ok a m' => rw [hr] at hy; exact (hf a).goesOn m' s hy
    | error e m' => rw [hr] at hy; exact hy

/-- What surrounds a part of a run keeps it side by side. -/
theorem within {x y : Run α} (a : Around) (h : Pair V C x y) :
    Pair V C (a.perform x) (a.perform y) where
  beside m₁ m₂ hm := by
    rw [a.perform_eq, a.perform_eq]
    exact (h.beside _ _ (hm.enter a)).leave a hm
  goesOn m s hs := by
    rw [a.perform_eq, a.signs_leave]
    exact h.goesOn (a.enter m) s (by rwa [a.signs_enter])

/-- What goes on side by side does so however it is put together. -/
theorem congruence : Congruence (Pair V C) :=
  ⟨inert, bind, fun pos h => h.within (.located pos), fun vs h => h.within (.holding vs),
    fun f h => h.within (.activating f)⟩

end Pair

end Run

theorem Machine.Level.releaseAll {V : Signs → Signs → Prop} {m₁ m₂ : Machine} (h : m₁.Level V m₂) :
    m₁.releaseAll.Level V m₂.releaseAll := by
  refine ⟨?_, by simpa using h.signs⟩
  rw [signs_releaseAll, ← releaseAll_withSigns, ← h.same]

namespace Program

/-- The signs that a run in a world begins with. -/
def signs (w : World) : Signs := ⟨[], 0, w.console.shown, w.cancelled⟩

/-- Two runs that begin with the same frames on the same world, and whose stages go on side by side, end
in the same way with level machines, unless the first one is cut. -/
theorem run_of_pair {p p' : Program} {settings settings' : Settings} {l l' : Option Listener} {n : Nat}
    {w : World} {V C : Signs → Signs → Prop} (hV : V (signs w) (signs w))
    (hframes : p'.globalFrames (p'.units.map (·.scope) ++ [p'.main]) w =
      p.globalFrames (p.units.map (·.scope) ++ [p.main]) w)
    (hstages : ∀ globals, Run.Pair V C (p.stages.forM (Env.execTop ⟨p, settings, l, globals, n⟩))
      (p'.stages.forM (Env.execTop ⟨p', settings', l', globals, n⟩))) :
    (p.run settings l n w).1 = (p'.run settings' l' n w).1 ∧
        (p.run settings l n w).2.Level V (p'.run settings' l' n w).2 ∨
      ∃ pos, (p.run settings l n w).1 = .cancelled pos ∧
        C (p.run settings l n w).2.signs (p'.run settings' l' n w).2.signs := by
  have hbegin := (p.globalFrames_inert (p.units.map (·.scope) ++ [p.main])).keeps w
  unfold run
  rw [hframes]
  generalize p.globalFrames (p.units.map (·.scope) ++ [p.main]) w = g at hbegin ⊢
  obtain ⟨globals, world⟩ := g
  have hlevel : Machine.Level V { world } { world } := by
    refine ⟨rfl, ?_⟩
    change V ⟨[], 0, world.console.shown, world.cancelled⟩ ⟨[], 0, world.console.shown, world.cancelled⟩
    rwa [hbegin.1, hbegin.2]
  have hbeside := (hstages globals).beside _ _ hlevel
  dsimp only at hbeside ⊢
  generalize p.stages.forM (m := Run) (Env.execTop ⟨p, settings, l, globals, n⟩) { world } = r
    at hbeside ⊢
  generalize p'.stages.forM (m := Run) (Env.execTop ⟨p', settings', l', globals, n⟩) { world } = r'
    at hbeside ⊢
  cases hbeside with
  | ok a h => exact .inl ⟨rfl, h.releaseAll⟩
  | error e h => exact .inl ⟨rfl, h.releaseAll⟩
  | cut pos h =>
    refine .inr ⟨pos, rfl, ?_⟩
    cases r' <;> simpa only [Machine.signs_releaseAll, Run.after] using h

/-- Two runs of a program that begin on the same world and go on side by side end in the same way with
level machines, unless the first one is cut. -/
theorem run_beside {p : Program} {settings settings' : Settings} {l l' : Option Listener} {n : Nat}
    {w : World} {V C : Signs → Signs → Prop} (hV : V (signs w) (signs w))
    (hdepth : settings'.maxCallDepth = settings.maxCallDepth)
    (he : ∀ globals, Env.Parallel (Run.Pair V C) ⟨p, settings, l, globals, n⟩
      ⟨p, settings', l', globals, n⟩) :
    (p.run settings l n w).1 = (p.run settings' l' n w).1 ∧
        (p.run settings l n w).2.Level V (p.run settings' l' n w).2 ∨
      ∃ pos, (p.run settings l n w).1 = .cancelled pos ∧
        C (p.run settings l n w).2.signs (p.run settings' l' n w).2.signs := by
  refine run_of_pair hV rfl fun globals => ?_
  have hcalls := (he globals).callWithin Run.Pair.congruence hdepth settings.maxCallDepth
  exact (he globals).stages Run.Pair.congruence (by rwa [hdepth])

end Program

end Pascal
