import Pascal.Proofs.Machine.Faults
import Pascal.Proofs.Machine.Forgotten
import Pascal.Proofs.Run.Plan

/-!
# What a run shows

Reports, the screen and the flag of a cancelled run are signs: nothing that a machine does by itself
depends on them, apart from library routines and from the checks for a cancellation. A computation that
neither sees signs nor gives any is inert.
-/

namespace Pascal

/-- What a run shows, and whether it has been cancelled. -/
structure Signs where
  reports : List Report
  linesReported : Nat
  shown : List ScreenEvent
  cancelled : Bool

namespace World

/-- The world with another screen and another flag. -/
def withSigns (w : World) (s : Signs) : World :=
  { w with console := { w.console with shown := s.shown }, cancelled := s.cancelled }

end World

namespace Machine

def signs (m : Machine) : Signs :=
  ⟨m.reports, m.linesReported, m.world.console.shown, m.world.cancelled⟩

/-- The machine with other signs. -/
def withSigns (m : Machine) (s : Signs) : Machine :=
  { m with reports := s.reports, linesReported := s.linesReported, world := m.world.withSigns s }

variable {m : Machine} {s : Signs}

@[simp] theorem signs_withSigns : (m.withSigns s).signs = s := rfl

@[simp] theorem withSigns_signs : m.withSigns m.signs = m := rfl

@[simp] theorem store_withSigns : (m.withSigns s).world.store = m.world.store := rfl

@[simp] theorem files_withSigns : (m.withSigns s).world.files = m.world.files := rfl

end Machine

/-- A function of the world that neither sees signs nor gives any. -/
def World.Inert {α : Type} (f : World → α × World) : Prop :=
  ∀ w s, f (World.withSigns w s) = ((f w).1, (f w).2.withSigns s)

/-- Such a function leaves all signs as they are. -/
theorem World.Inert.keeps {α : Type} {f : World → α × World} (hf : World.Inert f) (w : World) :
    (f w).2.console.shown = w.console.shown ∧ (f w).2.cancelled = w.cancelled := by
  have hself := congrArg Prod.snd (hf w ⟨[], 0, w.console.shown, w.cancelled⟩)
  rw [show w.withSigns ⟨[], 0, w.console.shown, w.cancelled⟩ = w from rfl] at hself
  rw [hself]
  exact ⟨rfl, rfl⟩

namespace World

variable (w : World) (s : Signs)

theorem initialValue_withSigns (t : Ty) :
    (w.withSigns s).initialValue t = ((w.initialValue t).1, (w.initialValue t).2.withSigns s) := by
  unfold initialValue
  split <;> rfl

theorem alloc_withSigns (v : Value) :
    (w.withSigns s).alloc v = ((w.alloc v).1, (w.alloc v).2.withSigns s) := rfl

theorem allocVariable_withSigns (v : Variable) :
    (w.withSigns s).allocVariable v = ((w.allocVariable v).1, (w.allocVariable v).2.withSigns s) := by
  unfold allocVariable
  split
  · rfl
  · rw [initialValue_withSigns]
    rfl

theorem addSlots_withSigns (vs : List Variable) (slots : List (String × Ref)) :
    (w.withSigns s).addSlots slots vs =
      ((w.addSlots slots vs).1, (w.addSlots slots vs).2.withSigns s) := by
  induction vs generalizing w slots with
  | nil => rfl
  | cons v vs ih =>
    unfold addSlots
    dsimp only
    split
    · exact ih w slots
    · rw [allocVariable_withSigns]
      exact ih _ _

theorem bindParams_withSigns (ps : List Parameter) (args : List Passed) :
    UserRoutine.bindParams ps args (w.withSigns s) = ((UserRoutine.bindParams ps args w).1,
      (UserRoutine.bindParams ps args w).2.withSigns s) := by
  induction ps generalizing args w with
  | nil => rfl
  | cons p ps ih =>
    cases args with
    | nil => rfl
    | cons arg args =>
      cases arg <;> (unfold UserRoutine.bindParams; dsimp only)
      · rw [alloc_withSigns, ih]
      · rw [ih]

end World

theorem UserRoutine.newFrame_inert (f : UserRoutine) (vars : List Variable) (args : List Passed) :
    World.Inert (f.newFrame vars args) := by
  intro w s
  unfold UserRoutine.newFrame
  rw [World.bindParams_withSigns]
  dsimp only
  rw [World.addSlots_withSigns]

theorem Program.globalFrames_inert (p : Program) (scopes : List Nat) :
    World.Inert (p.globalFrames scopes) := by
  intro w s
  induction scopes generalizing w with
  | nil => rfl
  | cons scope scopes ih =>
    unfold globalFrames
    rw [World.addSlots_withSigns]
    dsimp only
    rw [ih]

namespace Run

variable {α : Type} {x : Run α}

/-- A result with another machine. -/
def onMachine (f : Machine → Machine) :
    EStateM.Result Stop Machine α → EStateM.Result Stop Machine α
  | .ok a m => .ok a (f m)
  | .error e m => .error e (f m)

theorem after_onMachine (f : Machine → Machine) (r : EStateM.Result Stop Machine α) :
    after (onMachine f r) = f (after r) := by
  cases r <;> rfl

/-- A computation neither sees signs nor gives any, and does not stop as cancelled. -/
structure Inert (x : Run α) : Prop where
  blind : ∀ m s, x (m.withSigns s) = onMachine (·.withSigns s) (x m)
  heedless : ∀ m m' pos, x m ≠ .error (.fault .cancelled pos) m'

namespace Inert

/-- Inert computations leave all signs as they are. -/
theorem signs (h : x.Inert) (m : Machine) : (after (x m)).signs = m.signs := by
  have hself := congrArg after (h.blind m m.signs)
  rw [after_onMachine, Machine.withSigns_signs] at hself
  rw [hself, Machine.signs_withSigns]

theorem pure (a : α) : Inert (Pure.pure a) := ⟨fun _ _ => rfl, fun _ _ _ h => by cases h⟩

theorem throw {e : Stop} (he : ∀ pos, e ≠ .fault .cancelled pos) : Inert (throw e : Run α) :=
  ⟨fun _ _ => rfl, fun _ _ pos h => by
    injection h with h
    exact he pos h⟩

theorem fail {f : Fault} (hf : f ≠ .cancelled) : Inert (Run.fail f : Run α) :=
  throw fun _ h => hf (Stop.fault.inj h).1

theorem liftFault {r : Except Fault α} (hr : r ≠ .error .cancelled) : Inert (Run.liftFault r) := by
  cases r with
  | ok a => exact pure a
  | error f => exact fail fun hf => hr (by rw [hf])

theorem get (r : Ref) : Inert (Run.get r) where
  blind m s := by
    unfold Run.get
    rw [Machine.store_withSigns]
    cases m.world.store.get r <;> rfl
  heedless m m' pos h := by
    have hne := (m.world.store.heedless_get r).ne_cancelled
    unfold Run.get at h
    split at h
    · cases h
    · next hf =>
      cases h
      exact hne hf

theorem set (r : Ref) (v : Value) : Inert (Run.set r v) where
  blind m s := by
    unfold Run.set
    rw [Machine.store_withSigns]
    cases m.world.store.revised r fun _ => .ok v <;> rfl
  heedless m m' pos h := by
    have hne := (m.world.store.heedless_revised r (f := fun _ => .ok v) fun _ => .ok v).ne_cancelled
    unfold Run.set at h
    split at h
    · cases h
    · next hf =>
      cases h
      exact hne hf

theorem format (v width : Value) (precision : Option Value) : Inert (Run.format v width precision) where
  blind m s := by
    unfold Run.format World.render
    rw [Machine.store_withSigns]
    cases Value.format m.world.store.render v width precision <;> rfl
  heedless m m' pos h := by
    have hne := (Value.heedless_format m.world.render v width precision).ne_cancelled
    unfold Run.format at h
    split at h
    · cases h
    · next hf =>
      cases h
      exact hne hf

theorem onWorld {f : World → α × World} (hf : World.Inert f) : Inert (Run.onWorld f) where
  blind m s := by
    unfold Run.onWorld
    rw [show (m.withSigns s).world = m.world.withSigns s from rfl, hf]
    rfl
  heedless _ _ _ h := by cases h

end Inert

end Run

namespace Machine

variable {m : Machine} {s : Signs} {env : Env}

theorem foldl_letGo_withSigns (ns : List Nat) :
    ns.foldl letGo (m.withSigns s) = (ns.foldl letGo m).withSigns s := by
  induction ns generalizing m with
  | nil => rfl
  | cons n ns ih => exact ih (m := m.letGo n)

theorem releaseForgotten_withSigns :
    (m.withSigns s).releaseForgotten env = (m.releaseForgotten env).withSigns s := by
  unfold releaseForgotten
  dsimp only
  rw [files_withSigns, show (m.withSigns s).dirtyFiles = m.dirtyFiles from rfl,
    show (m.withSigns s).filesInSight env = m.filesInSight env from rfl,
    show (m.withSigns s).filesInUse env = m.filesInUse env from rfl, foldl_letGo_withSigns]
  split
  · split <;> rfl
  · rfl

theorem releaseAll_withSigns : (m.withSigns s).releaseAll = m.releaseAll.withSigns s :=
  foldl_letGo_withSigns _

@[simp] theorem signs_releaseAll (m : Machine) : m.releaseAll.signs = m.signs := by
  have hself := congrArg signs (releaseAll_withSigns (m := m) (s := m.signs))
  rwa [withSigns_signs, signs_withSigns] at hself

end Machine

namespace Run

/-- Letting forgotten files go gives no signs. -/
theorem Inert.releaseForgotten (env : Env) (vs : List Value) : Inert (releaseForgotten env vs) where
  blind m s := by
    unfold Run.releaseForgotten holding onMachine
    dsimp only
    rw [show { m.withSigns s with held := vs ++ (m.withSigns s).held } =
      ({ m with held := vs ++ m.held } : Machine).withSigns s from rfl,
      Machine.releaseForgotten_withSigns]
    rfl
  heedless _ _ _ h := by cases h

end Run

end Pascal
