import Pascal.Proofs.Run.Contract
import Pascal.Proofs.Scope.Chain

/-!
# The machines that a run goes through

A run of a program makes a call for each of its statements in order. The calls that are reached are
these and the ones on their way, and the machines that are reached are those at which such a call begins
or ends.
-/

namespace Pascal

variable {α β γ : Type} {C : Contract γ}

/-- What a program is run with. -/
structure Launch where
  settings : Settings
  listener : Option Listener
  rounds : Nat
  world : World

namespace Env

/-- The run of some statements of the main program and of units. -/
def planStages (env : Env) : List Stmt → Plan Unit
  | [] => return ()
  | s :: ss => do
    let _ ← Plan.enter env.settings.maxCallDepth [] (.stmt s)
    env.planStages ss

theorem perform_planStages (env : Env) (ss : List Stmt) :
    (env.planStages ss).perform env = ss.forM env.execTop := by
  induction ss with
  | nil => rfl
  | cons s ss ih =>
    change _ = env.execTop s >>= fun _ => ss.forM env.execTop
    rw [execTop, bind_assoc]
    exact Plan.perform_bind_eq rfl fun _ => ih

end Env

namespace Program

/-- The storage of the units and the main program at the start. -/
def globals (p : Program) (w : World) : List Frame × World :=
  p.globalFrames (p.units.map (·.scope) ++ [p.main]) w

def env (p : Program) (l : Launch) : Env where
  program := p
  settings := l.settings
  listener := l.listener
  globals := (p.globals l.world).1
  rounds := l.rounds

/-- The machine that a run begins with. -/
def start (p : Program) (l : Launch) : Machine := { world := (p.globals l.world).2 }

/-- How a run goes on from its start. -/
def plan (p : Program) (l : Launch) : Plan Unit := (p.env l).planStages p.stages

theorem run_eq (p : Program) (l : Launch) : p.run l.settings l.listener l.rounds l.world =
    match (p.plan l).perform (p.env l) (p.start l) with
    | .ok _ m => (.completed, m.releaseAll)
    | .error stop m => (.ofStop stop, m.releaseAll) := by
  rw [plan, Env.perform_planStages]
  rfl

/-- The calls that a run makes, each with the machine that it begins with. -/
def Reaches (p : Program) (l : Launch) (t : Task α) (m : Machine) : Prop :=
  ∃ (β : Type) (t₀ : Task β) (m₀ : Machine),
    Plan.Makes (p.env l) t₀ m₀ (p.plan l) (p.start l) ∧ t₀.Reaches (p.env l) m₀ t m

/-- Whether a run reaches a call that passes a test, in some steps from one at its own level. -/
def finds (p : Program) (l : Launch) (test : {β : Type} → Task β → Machine → Bool) (steps : Nat) :
    Bool :=
  (p.plan l).finds (p.env l) (Task.finds (p.env l) test steps) (p.start l)

theorem exists_reaches {p : Program} {l : Launch} {test : {β : Type} → Task β → Machine → Bool}
    {steps : Nat} (h : p.finds l test steps) :
    ∃ (β : Type) (t : Task β) (m : Machine), p.Reaches l t m ∧ test t m := by
  obtain ⟨β, t₀, m₀, hmakes, h⟩ := Plan.exists_makes h
  obtain ⟨δ, t, m, hreaches, htest⟩ := Task.exists_reaches h
  exact ⟨δ, t, m, ⟨β, t₀, m₀, hmakes, hreaches⟩, htest⟩

/-- The machines that a run goes through. -/
inductive Reachable (p : Program) (l : Launch) : Machine → Prop
  | start : Reachable p l (p.start l)
  | begins {α : Type} {t : Task α} {m : Machine} (h : p.Reaches l t m) : Reachable p l m
  | ends {α : Type} {t : Task α} {m : Machine} (h : p.Reaches l t m) :
      Reachable p l (Run.after (t.perform (p.env l) m))

end Program

namespace Program

theorem heading_fold (p : Program) (id : Nat) :
    (p.fold.arena.function id).heading = (p.arena.function id).heading ∧
      (p.fold.arena.function id).body = (p.arena.function id).body.map Stmt.fold := by
  simp only [fold, Arena.function, Array.getElem?_map]
  cases p.arena.functions[id]? <;> exact ⟨rfl, rfl⟩

theorem alike_fold (p : Program) : p.arena.Alike p.fold.arena where
  scopes := rfl
  size := by simp [fold]
  heading id := (p.heading_fold id).1
  natives := rfl
  libraries := rfl

theorem globalFrames_fold (p : Program) (scopes : List Nat) (w : World) :
    p.fold.globalFrames scopes w = p.globalFrames scopes w := by
  induction scopes generalizing w with
  | nil => rfl
  | cons scope scopes ih =>
    simp only [globalFrames, ih]
    rfl

theorem stages_fold (p : Program) : p.fold.stages = p.stages.map Stmt.fold := by
  simp only [stages, fold, ← List.map_reverse, List.map_append, List.map_cons]
  rw [List.filterMap_map, List.filterMap_map, List.map_filterMap, List.map_filterMap]
  rfl

end Program

/-- Statements that run one after the other keep a contract that each of them keeps. -/
theorem Plan.Meets.planStages {env : Env} {I : Machine → Prop} {Q : EStateM.Result Stop Machine Unit → Prop}
    {ss : List Stmt} {m : Machine}
    (h : ∀ s ∈ ss, ∀ m, I m → ∃ g, C.before g ⟨.stmt s, [], env.settings.maxCallDepth⟩ m ∧
      ∀ r, C.after g ⟨.stmt s, [], env.settings.maxCallDepth⟩ m r → Run.Then Q (fun _ => I) r)
    (hm : I m) (hQ : ∀ m, I m → Q (.ok () m)) : (env.planStages ss).Meets env C Q m := by
  induction ss generalizing m with
  | nil => exact hQ m hm
  | cons s ss ih =>
    obtain ⟨hs, hss⟩ := List.forall_mem_cons.mp h
    obtain ⟨g, hb, ha⟩ := hs m hm
    exact .bind (.enter g hb fun r _ h => ha r h) (fun _ m' hm' => ih hss hm') fun _ _ h => h

/-- What holds when calls are made holds of all calls that a run makes. -/
theorem Program.Reaches.before {p : Program} {l : Launch} (hC : C.Kept (p.env l))
    {Q : EStateM.Result Stop Machine Unit → Prop}
    (hp : (p.plan l).Meets (p.env l) C Q (p.start l)) {t : Task α} {m : Machine}
    (h : p.Reaches l t m) : ∃ g, C.before g t m := by
  obtain ⟨β, t₀, m₀, h₀, h⟩ := h
  obtain ⟨g, hb⟩ := h₀.before hC hp
  exact h.before hC hb

/-- How a run ends is what its plan promises. -/
theorem Program.perform_plan {p : Program} {l : Launch} (hC : C.Kept (p.env l))
    {Q : EStateM.Result Stop Machine Unit → Prop}
    (hp : (p.plan l).Meets (p.env l) C Q (p.start l)) : Q ((p.plan l).perform (p.env l) (p.start l)) :=
  hp.perform (Plan.Calls.of_forall (P := fun _ => True) (fun _ => trivial) _) fun t g m _ =>
    hC.perform t g m

/-!
## The stages of a run

A run goes through the same stages whatever the units hold: they start in the order of the program, the
main program runs, and they end the other way round. A stage without statements leaves the machine as it
is.
-/

/-- What a run does at its own level. -/
inductive Stage where
  | start (u : UnitCode)
  | main
  | finish (u : UnitCode)

namespace Program

/-- The stages of a run in order. -/
def schedule (p : Program) : List Stage :=
  p.units.map .start ++ .main :: p.units.reverse.map .finish

/-- The statements of a stage, if it has any. -/
def code? (p : Program) : Stage → Option Stmt
  | .start u => u.initialization
  | .main => some p.body
  | .finish u => u.finalization

theorem stages_eq (p : Program) : p.stages = p.schedule.filterMap p.code? := by
  have hstart : ∀ us : List UnitCode,
      (us.map Stage.start).filterMap p.code? = us.filterMap (·.initialization) := by
    intro us
    rw [List.filterMap_map]
    rfl
  have hfinish : ∀ us : List UnitCode,
      (us.map Stage.finish).filterMap p.code? = us.filterMap (·.finalization) := by
    intro us
    rw [List.filterMap_map]
    rfl
  rw [stages, schedule, List.filterMap_append, hstart]
  have hmain : p.code? .main = some p.body := rfl
  rw [List.filterMap_cons_some hmain, hfinish]

/-- Units that follow one another in the program start in that order and end the other way round. -/
theorem sublist_schedule {p : Program} {us : List UnitCode} (h : us.Sublist p.units) :
    (us.map Stage.start ++ .main :: us.reverse.map Stage.finish).Sublist p.schedule := by
  have hstart := h.map Stage.start
  have hfinish := h.reverse.map Stage.finish
  exact hstart.append (hfinish.cons_cons _)

/-- No stage is there twice. -/
theorem nodup_schedule {p : Program} (h : p.units.Nodup) : p.schedule.Nodup := by
  have hstart : (p.units.map Stage.start).Nodup := h.map fun _ _ he => Stage.start.inj he
  have hfinish : (p.units.reverse.map Stage.finish).Nodup :=
    (List.nodup_reverse.mpr h).map fun _ _ he => Stage.finish.inj he
  have hmain : (.main :: p.units.reverse.map Stage.finish).Nodup := by
    refine List.nodup_cons.mpr ⟨?_, hfinish⟩
    simp
  refine List.nodup_append.mpr ⟨hstart, hmain, ?_⟩
  intro stage hleft other hright
  obtain ⟨u, -, rfl⟩ := List.mem_map.mp hleft
  rcases List.mem_cons.mp hright with rfl | hright
  · simp
  · obtain ⟨v, -, rfl⟩ := List.mem_map.mp hright
    simp

end Program

namespace Env

/-- A statement of the main program or of a unit runs to its end outside of all routines. -/
theorem execTop_eq_ok {env : Env} {s : Stmt} {m m' : Machine} : env.execTop s m = .ok () m' ↔
    ∃ flow, s.exec env (env.callWithin env.settings.maxCallDepth) [] m = .ok flow m' := by
  constructor
  · intro h
    obtain ⟨flow, m₁, hexec, hend⟩ := EStateM.bind_eq_ok_iff.mp h
    cases hend
    exact ⟨flow, hexec⟩
  · rintro ⟨flow, hexec⟩
    exact EStateM.bind_eq_ok_iff.mpr ⟨flow, m', hexec, rfl⟩

/-- A machine that goes through some stages: the code of each is executed outside of all routines, on the
machine that the one before has left, and it comes to its end. -/
inductive GoesThrough (env : Env) : List Stage → Machine → Machine → Prop where
  | done {m : Machine} : GoesThrough env [] m m
  | idle {stage : Stage} {stages : List Stage} {m m' : Machine}
      (hcode : env.program.code? stage = none) (hrest : GoesThrough env stages m m') :
      GoesThrough env (stage :: stages) m m'
  | runs {stage : Stage} {stages : List Stage} {s : Stmt} {flow : Flow} {m m₁ m' : Machine}
      (hcode : env.program.code? stage = some s)
      (hrun : s.exec env (env.callWithin env.settings.maxCallDepth) [] m = .ok flow m₁)
      (hrest : GoesThrough env stages m₁ m') : GoesThrough env (stage :: stages) m m'

theorem forM_cons_eq_ok {f : Stmt → Run Unit} {s : Stmt} {ss : List Stmt} {m m' : Machine} :
    (s :: ss).forM f m = .ok () m' ↔ ∃ m₁, f s m = .ok () m₁ ∧ ss.forM f m₁ = .ok () m' := by
  change (f s >>= fun _ => ss.forM f) m = _ ↔ _
  simp only [Bind.bind, EStateM.bind]
  cases f s m with
  | ok u m₁ => simp
  | error e m₁ => simp

/-- The statements of some stages run to their end just when the machine goes through the stages. -/
theorem goesThrough_iff {env : Env} {stages : List Stage} {m m' : Machine} :
    env.GoesThrough stages m m' ↔
      (stages.filterMap env.program.code?).forM env.execTop m = .ok () m' := by
  induction stages generalizing m with
  | nil =>
    constructor
    · rintro ⟨⟩
      rfl
    · rintro ⟨⟩
      exact .done
  | cons stage stages ih =>
    cases hcode : env.program.code? stage with
    | none =>
      rw [List.filterMap_cons_none hcode, ← ih]
      constructor
      · intro h
        cases h with
        | idle _ hrest => exact hrest
        | runs hs => rw [hcode] at hs; cases hs
      · exact .idle hcode
    | some s =>
      rw [List.filterMap_cons_some hcode, forM_cons_eq_ok]
      constructor
      · intro h
        cases h with
        | idle hs => rw [hcode] at hs; cases hs
        | runs hs hrun hrest =>
          rw [hcode] at hs
          cases hs
          exact ⟨_, execTop_eq_ok.mpr ⟨_, hrun⟩, ih.mp hrest⟩
      · rintro ⟨m₁, hrun, hrest⟩
        obtain ⟨flow, hrun⟩ := execTop_eq_ok.mp hrun
        exact .runs hcode hrun (ih.mpr hrest)

end Env

/-- A run is completed just when it goes through all stages. -/
theorem Program.run_completed_iff (p : Program) (l : Launch) (m : Machine) :
    p.run l.settings l.listener l.rounds l.world = (.completed, m) ↔
      ∃ m', (p.env l).GoesThrough p.schedule (p.start l) m' ∧ m = m'.releaseAll := by
  have hthrough : ∀ m', (p.env l).GoesThrough p.schedule (p.start l) m' ↔
      (p.plan l).perform (p.env l) (p.start l) = .ok () m' := by
    intro m'
    rw [Env.goesThrough_iff, plan, Env.perform_planStages, stages_eq]
    rfl
  rw [run_eq]
  cases hrun : (p.plan l).perform (p.env l) (p.start l) with
  | ok u m₁ =>
    have hiff : ∀ m', (p.env l).GoesThrough p.schedule (p.start l) m' ↔ m₁ = m' := by
      intro m'
      rw [hthrough, hrun]
      simp
    simp only [hiff, Prod.mk.injEq, true_and, exists_eq_left']
    exact eq_comm
  | error stop m₁ =>
    constructor
    · intro h
      have hstop : Outcome.ofStop stop ≠ .completed := by
        unfold Outcome.ofStop
        split <;> simp
      exact absurd (congrArg Prod.fst h) hstop
    · rintro ⟨m', h, -⟩
      rw [hthrough, hrun] at h
      cases h

end Pascal
