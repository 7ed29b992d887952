import Pascal.Proofs.Machine.Forgotten
import Pascal.Proofs.Run.Contract

/-!
# Calm computations

All that a call does leaves the routines that are active as they were, however it ends. Which faults it
can end with is told by a property of faults: it need only hold of those that operations find, and of
those few that a call finds itself.
-/

namespace Pascal

namespace Run

variable {α β : Type} {P Q : Fault → Prop} {m : Machine} {r : EStateM.Result Stop Machine α}

/-- A result leaves the routines that are active as they were, and its fault, if it is one, has a
property. -/
structure Calm (P : Fault → Prop) (m : Machine) (r : EStateM.Result Stop Machine α) : Prop where
  active : (after r).active = m.active
  sound : ∀ f pos m', r = .error (.fault f pos) m' → P f

namespace Calm

theorem ok {a : α} {m' : Machine} (h : m'.active = m.active) : Calm P m (.ok a m') :=
  ⟨h, fun _ _ _ he => by cases he⟩

theorem error {e : Stop} {m' : Machine} (h : m'.active = m.active)
    (he : ∀ f pos, e = .fault f pos → P f) :
    Calm P m (.error e m' : EStateM.Result Stop Machine α) :=
  ⟨h, fun f pos _ hr => by
    injection hr with hr
    exact he f pos hr⟩

theorem fault {f : Fault} {pos : Option Position} {m' : Machine} (h : m'.active = m.active)
    (hf : P f) : Calm P m (.error (.fault f pos) m' : EStateM.Result Stop Machine α) :=
  error h fun _ _ he => (Stop.fault.inj he).1 ▸ hf

theorem trans {m' : Machine} (h : Calm P m' r) (hm : m'.active = m.active) : Calm P m r :=
  ⟨h.active.trans hm, h.sound⟩

/-- An error stays what it is where something would follow it. -/
theorem of_error {e : Stop} {m' : Machine}
    (h : Calm P m (.error e m' : EStateM.Result Stop Machine α)) :
    Calm P m (.error e m' : EStateM.Result Stop Machine β) :=
  error h.active fun f pos he => h.sound f pos m' (he ▸ rfl)

theorem leave_located (h : Calm P m r) (m₀ : Machine) (pos : Position) :
    Calm P m ((Around.located pos).leave m₀ r) := by
  cases r with
  | ok a m' => exact h
  | error e m' =>
    cases e with
    | exhausted => exact h
    | fault f at? =>
      cases at? with
      | none => exact fault h.active (h.sound f none m' rfl)
      | some p => exact h

theorem leave_holding (h : Calm P m r) (m₀ : Machine) (vs : List Value) :
    Calm P m ((Around.holding vs).leave m₀ r) := by
  cases r with
  | ok a m' => exact ok h.active
  | error e m' => exact error h.active fun f pos he => h.sound f pos m' (he ▸ rfl)

/-- Where a routine ends, those that are active are those that were so before. -/
theorem leave_activating {f : Frame} (h : Calm P { m with active := f :: m.active } r) :
    Calm P m ((Around.activating f).leave m r) := by
  cases r with
  | ok a m' => exact ok rfl
  | error e m' => exact error rfl fun f pos he => h.sound f pos m' (he ▸ rfl)

end Calm

/-- A computation leaves the routines that are active as they are, and its faults have a property. -/
def Still (P : Fault → Prop) (x : Run α) : Prop := ∀ m, Calm P m (x m)

namespace Still

theorem pure (a : α) : Still P (Pure.pure a : Run α) := fun _ => .ok rfl

theorem exhausted : Still P (MonadExcept.throw .exhausted : Run α) :=
  fun _ => .error rfl fun _ _ h => by cases h

theorem fail {f : Fault} (hf : P f) : Still P (Run.fail f : Run α) := fun _ => .fault rfl hf

theorem liftFault {r : Except Fault α} (hr : Fails P r) : Still P (Run.liftFault r) := by
  cases r with
  | ok a => exact pure a
  | error f => exact fail (Fails.error_iff.mp hr)

theorem get (hP : ∀ f : Fault, f.isReserved = false → P f) (r : Ref) : Still P (Run.get r) := by
  intro m
  unfold Run.get
  split
  · exact .ok rfl
  · next hf => exact .fault rfl (hP _ (m.world.store.heedless_get r _ hf))

theorem set (hP : ∀ f : Fault, f.isReserved = false → P f) (r : Ref) (v : Value) :
    Still P (Run.set r v) := by
  intro m
  unfold Run.set
  split
  · exact .ok rfl
  · next hf =>
    exact .fault rfl (hP _ (m.world.store.heedless_revised r (fun _ => .ok v) _ hf))

theorem format (hP : ∀ f : Fault, f.isReserved = false → P f) (v width : Value)
    (precision : Option Value) : Still P (Run.format v width precision) := by
  intro m
  unfold Run.format
  split
  · exact .ok rfl
  · next hf => exact .fault rfl (hP _ (Value.heedless_format _ _ _ _ _ hf))

theorem onWorld (f : World → α × World) : Still P (Run.onWorld f) := fun _ => .ok rfl

theorem ofHost (hP : ∀ f : Fault, f.isReserved = false → P f) (name : String) {x : Host α}
    (hx : ∀ w w' f, x w = .error (.fault f) w' → P f) : Still P (Run.ofHost name x) := by
  intro m
  unfold Run.ofHost
  split
  · exact .ok rfl
  · next hf => exact .fault rfl (hx _ _ _ hf)
  · exact .fault rfl (hP _ rfl)

theorem checkCancelled (hP : P .cancelled) : Still P Run.checkCancelled := by
  intro m
  unfold Run.checkCancelled
  split
  · exact .fault rfl hP
  · exact .ok rfl

theorem announce (env : Env) (chain : Chain) (s : Stmt) : Still P (Run.announce env chain s) := by
  intro m
  refine .ok ?_
  split
  · rfl
  · unfold Machine.announce
    split
    · rfl
    · dsimp only
      split <;> rfl

theorem releaseForgotten (env : Env) (vs : List Value) : Still P (Run.releaseForgotten env vs) :=
  fun m => .ok (Machine.keeps_releaseForgotten env { m with held := vs ++ m.held }).active

theorem map {x : Run α} (h : Still P x) (f : α → β) : Still P (f <$> x) := by
  intro m
  have hx := h m
  simp only [Functor.map, EStateM.map]
  cases hr : x m with
  | ok a m' => exact .ok (hr ▸ hx).active
  | error e m' => exact (hr ▸ hx : Calm P m (.error e m')).of_error

end Still

/-- What a call finds wrong itself besides what operations find: the run has been cancelled, a variable
has no place, a library routine fails or is missing. -/
structure Finds (env : Env) (t : Task β) (P : Fault → Prop) : Prop where
  plain : ∀ f : Fault, f.isReserved = false → P f
  cancelled : P .cancelled
  lookup : ∀ v, t.code.lookedUp? = some v → Fails P (env.variableRef t.chain v)
  native : ∀ id, t.code.native? = some id → ∀ r, env.program.arena.natives[id]? = some r →
    ∀ args w w' f, r.run args w = .error (.fault f) w' → P f
  missing : ∀ id, t.code.native? = some id → env.program.arena.natives[id]? = none →
    P (.internal "routine has no body")

/-- What a call does itself leaves the routines that are active as they are. -/
theorem Step.still {env : Env} {t : Task β} {x : Run α} (h : Step env t x) (hP : Finds env t P) :
    Still P x := by
  cases h with
  | pure a => exact .pure a
  | exhausted => exact .exhausted
  | fail hf => exact .fail (hP.plain _ hf)
  | liftFault hr => exact .liftFault (hr.mono hP.plain)
  | lookup hv => exact .liftFault (hP.lookup _ hv)
  | get r => exact .get hP.plain r
  | set _ r v => exact .set hP.plain r v
  | clear r => exact .set hP.plain r _
  | format v width precision => exact .format hP.plain v width precision
  | onWorld _ f => exact .onWorld f
  | checkCancelled => exact .checkCancelled hP.cancelled
  | announce s => exact .announce env t.chain s
  | releaseForgotten vs => exact .releaseForgotten env vs
  | native hid hr args => exact .ofHost hP.plain _ (hP.native _ hid _ hr args)
  | missing hid hr => exact .fail (hP.missing _ hid hr)

/-- What a routine that has ended hands over. -/
def result (f : UserRoutine) (frame : Frame) : Run (Option Value) :=
  match f.signature.result with
  | none => Pure.pure none
  | some _ =>
    match frame.slot? resultName with
    | none => Run.fail (.internal "function frame has no result")
    | some r => some <$> Run.get r

end Run

variable {α β γ : Type} {env : Env} {P : Fault → Prop} {m₀ m : Machine} {C : Contract γ}

/-- A plan is calm where it is so itself and its calls promise to be so. -/
theorem Plan.Own.meets {T : ∀ {β : Type}, Task β → Prop} {p : Plan α} (hp : p.Own (Run.Still P) T)
    (hC : ∀ {β : Type} (t : Task β) m, T t → m.active = m₀.active →
      ∃ g, C.before g t m ∧ ∀ r, C.after g t m r → Run.Calm P m r)
    (hm : m.active = m₀.active) : p.Meets env C (Run.Calm P m₀) m := by
  induction p generalizing m with
  | action x => exact .action ((hp m).trans hm)
  | call t =>
    obtain ⟨g, hb, ha⟩ := hC t m hp hm
    exact ⟨g, hb, fun h => (ha _ h).trans hm⟩
  | bind p next ihp ihn =>
    exact .bind (ihp hp.1 hm) (fun a m' hm' => ihn a (hp.2 a) hm'.active) fun _ _ h => h.of_error
  | within a p ih =>
    cases a with
    | located pos => exact .within (.mono (ih (m := m) hp hm) fun r hr => hr.leave_located m pos)
    | holding vs =>
      exact .within (.mono (ih (m := { m with held := vs ++ m.held }) hp hm) fun r hr =>
        hr.leave_holding m vs)
    | activating f => exact hp.elim

/-- The call of a routine is calm where its body promises to be so in a frame of its own. -/
theorem Env.planActivation_meets {depth : Nat} {chain : Chain} {f : UserRoutine} {body : Stmt}
    {passed : List Passed}
    (hC : ∀ w m', let frame := (f.newFrame (env.program.arena.scope f.scope).vars passed w).1
      m'.active = frame :: m.active → Run.Still P (Run.result f frame) ∧
        ∃ g, C.before g ⟨.stmt body, frame :: f.outerFrames chain, depth⟩ m' ∧
          ∀ r, C.after g ⟨.stmt body, frame :: f.outerFrames chain, depth⟩ m' r → Run.Calm P m' r) :
    (env.planActivation depth chain f body passed).Meets env C (Run.Calm P m) m := by
  refine .bind (P := fun r => r = Run.onWorld (f.newFrame (env.program.arena.scope f.scope).vars passed)
    m) (.action rfl) ?_ fun _ _ h => by cases h
  rintro frame m₁ h₁
  cases h₁
  obtain ⟨hresult, g, hb, ha⟩ := hC m.world { m with
    world := _, active := _ :: m.active } rfl
  refine .bind (P := Run.Calm P m) (.within (.enter g hb fun r _ hr => ?_)) ?_ fun _ _ h => h.of_error
  · exact (ha r hr).leave_activating.trans rfl
  · intro _ m₂ hm₂
    refine Plan.Own.meets (T := fun _ => False) ?_ (fun _ _ h => h.elim) hm₂.active
    exact ⟨hresult, fun result => ⟨.releaseForgotten env _, fun _ => .pure result⟩⟩

end Pascal
