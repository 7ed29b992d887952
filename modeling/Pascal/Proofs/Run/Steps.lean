import Pascal.Proofs.Machine.Faults
import Pascal.Proofs.Run.Plan

/-!
# What a call does itself

Between the calls that it makes, a call only does a few kinds of things. It only makes smaller calls, and
all of them but those of the body of a routine see the frames that it sees itself, with as many routines
that may be active inside them. All that holds of these things and of how they are put together holds of
calls.
-/

namespace Pascal

variable {α β γ δ : Type} {env : Env}

namespace Code

/-- The size of the code that is still to be run. -/
noncomputable def size {α : Type} : Code α → Nat
  | .expr e => sizeOf e
  | .place p => sizeOf p
  | .items es => sizeOf es
  | .arg a => sizeOf a
  | .args as => sizeOf as
  | .call _ _ => 0
  | .stmt s => sizeOf s
  | .stmts ss => sizeOf ss
  | .arms _ as => sizeOf as
  | .whileRounds condition body _ => sizeOf condition + sizeOf body + 1
  | .repeatRounds body condition _ => sizeOf body + sizeOf condition + 1
  | .forRounds _ _ _ body _ _ => sizeOf body + 1

def rounds {α : Type} : Code α → Nat
  | .whileRounds _ _ n => n
  | .repeatRounds _ _ n => n
  | .forRounds _ _ _ _ n _ => n
  | _ => 0

/-- The variable that a call looks up itself. -/
def lookedUp? : Code α → Option VarRef
  | .place (.var v) => some v
  | _ => none

/-- The library routine that a call lets run. -/
def native? : Code α → Option Nat
  | .call (.native id) _ => some id
  | _ => none

/-- Whether a call stores values itself: assignments, what `new` makes, and counters of loops. -/
def stores : Code α → Bool
  | .stmt (.assign _ _ _) | .stmt (.new _ _ _) | .stmt (.forDo _ _ _ _ _ _)
  | .forRounds _ _ _ _ _ _ => true
  | _ => false

end Code

/-- A call is smaller than another one: fewer routines may be active inside it, or less code or fewer
rounds are left. -/
def Task.Below (t : Task α) (t' : Task β) : Prop :=
  t.depth < t'.depth ∨ t.depth = t'.depth ∧
    (t.code.size < t'.code.size ∨ t.code.size = t'.code.size ∧ t.code.rounds < t'.code.rounds)

/-- A call that another one goes on with: it sees the same frames, as many routines may be active inside
it, and it is smaller. -/
structure Task.GoesOn (t : Task α) (t' : Task β) : Prop where
  chain : t'.chain = t.chain
  depth : t'.depth = t.depth
  below : t'.Below t

/-- Where a call sees the same, the code decides whether another one goes on with it. -/
theorem Task.goesOn_iff {code : Code α} {c : Code β} {chain : Chain} {depth : Nat} :
    Task.GoesOn ⟨code, chain, depth⟩ ⟨c, chain, depth⟩ ↔
      c.size < code.size ∨ c.size = code.size ∧ c.rounds < code.rounds := by
  refine ⟨fun h => ?_, fun h => ⟨rfl, rfl, .inr ⟨rfl, h⟩⟩⟩
  simpa [Task.Below] using h.below

namespace Run

/-- What a call that is not one of a routine of the program does between the calls that it makes. -/
inductive Step (env : Env) (t : Task γ) : {α : Type} → Run α → Prop
  | pure {α : Type} (a : α) : Step env t (pure a)
  | exhausted {α : Type} : Step env t (throw .exhausted : Run α)
  | fail {α : Type} {f : Fault} (h : f.isReserved = false) : Step env t (fail f : Run α)
  | liftFault {α : Type} {r : Except Fault α} (h : Heedless r) : Step env t (liftFault r)
  | lookup {v : VarRef} (h : t.code.lookedUp? = some v) :
      Step env t (liftFault (env.variableRef t.chain v))
  | get (r : Ref) : Step env t (get r)
  | set (h : t.code.stores) (r : Ref) (v : Value) : Step env t (set r v)
  | clear (r : Ref) : Step env t (set r (.pointer none))
  | format (v width : Value) (precision : Option Value) : Step env t (format v width precision)
  | onWorld {α : Type} (h : t.code.stores) (f : World → α × World) : Step env t (onWorld f)
  | checkCancelled : Step env t checkCancelled
  | announce (s : Stmt) : Step env t (announce env t.chain s)
  | releaseForgotten (vs : List Value) : Step env t (releaseForgotten env vs)
  | native {id : Nat} {r : Routine} (h : t.code.native? = some id)
      (hr : env.program.arena.natives[id]? = some r) (args : List Value) :
      Step env t (ofHost r.name (r.run args))
  | missing {α : Type} {id : Nat} (h : t.code.native? = some id)
      (hr : env.program.arena.natives[id]? = none) :
      Step env t (Run.fail (.internal "routine has no body") : Run α)

attribute [simp] Step.pure Step.exhausted Step.get Step.clear Step.format Step.checkCancelled
  Step.releaseForgotten

end Run

namespace Plan

/-- All calls that a plan may make have a property. -/
def Calls (P : ∀ {β : Type}, Task β → Prop) {α : Type} : Plan α → Prop
  | action _ => True
  | call t => P t
  | bind p next => p.Calls P ∧ ∀ a, (next a).Calls P
  | within _ p => p.Calls P

theorem Calls.of_forall {P : ∀ {β : Type}, Task β → Prop} (h : ∀ {β : Type} (t : Task β), P t)
    {α : Type} (p : Plan α) : p.Calls P := by
  induction p with
  | action => trivial
  | call t => exact h t
  | bind p next ihp ihn => exact ⟨ihp, ihn⟩
  | within a p ih => exact ih

/-- What a plan does itself has a property, as have all calls that it may make. No routine is active
inside it but outside of these. -/
def Own (Q : ∀ {α : Type}, Run α → Prop) (P : ∀ {β : Type}, Task β → Prop) {α : Type} :
    Plan α → Prop
  | action x => Q x
  | call t => P t
  | bind p next => p.Own Q P ∧ ∀ a, (next a).Own Q P
  | within (.activating _) _ => False
  | within _ p => p.Own Q P

section

variable {Q : ∀ {α : Type}, Run α → Prop} {P : ∀ {β : Type}, Task β → Prop}

@[simp] theorem own_action (x : Run α) : (action x).Own Q P ↔ Q x := .rfl

@[simp] theorem own_pure (a : α) : (pure a : Plan α).Own Q P ↔ Q (pure a : Run α) := .rfl

@[simp] theorem own_bind (p : Plan α) (next : α → Plan β) :
    (p >>= next).Own Q P ↔ p.Own Q P ∧ ∀ a, (next a).Own Q P := .rfl

@[simp] theorem own_enter {depth : Nat} {chain : Chain} (c : Code α) :
    (enter depth chain c).Own Q P ↔ P ⟨c, chain, depth⟩ := .rfl

@[simp] theorem own_holding (vs : List Value) (p : Plan α) :
    (within (.holding vs) p).Own Q P ↔ p.Own Q P := .rfl

@[simp] theorem own_located (pos : Position) (p : Plan α) :
    (within (.located pos) p).Own Q P ↔ p.Own Q P := .rfl

@[simp] theorem own_ite {c : Prop} [Decidable c] {p q : Plan α} :
    (if c then p else q).Own Q P ↔ (c → p.Own Q P) ∧ (¬c → q.Own Q P) := by
  split <;> simp [*]

end

namespace Own

variable {Q Q' : ∀ {α : Type}, Run α → Prop} {P P' : ∀ {β : Type}, Task β → Prop} {p : Plan α}

theorem mono (h : p.Own Q P) (hQ : ∀ {α : Type} (x : Run α), Q x → Q' x)
    (hP : ∀ {β : Type} (t : Task β), P t → P' t) : p.Own Q' P' := by
  induction p with
  | action x => exact hQ x h
  | call t => exact hP t h
  | bind p next ihp ihn => exact ⟨ihp h.1, fun a => ihn a (h.2 a)⟩
  | within a p ih =>
    cases a with
    | located | holding => exact ih h
    | activating => exact h.elim

/-- Calls have all properties that are known of them. -/
theorem and (h : p.Own Q P) (h' : p.Own Q' P') : p.Own Q fun t => P t ∧ P' t := by
  induction p with
  | action x => exact h
  | call t => exact ⟨h, h'⟩
  | bind p next ihp ihn => exact ⟨ihp h.1 h'.1, fun a => ihn a (h.2 a) (h'.2 a)⟩
  | within a p ih =>
    cases a with
    | located | holding => exact ih h h'
    | activating => exact h.elim

theorem calls (h : p.Own Q P) : p.Calls P := by
  induction p with
  | action x => trivial
  | call t => exact h
  | bind p next ihp ihn => exact ⟨ihp h.1, fun a => ihn a (h.2 a)⟩
  | within a p ih =>
    cases a with
    | located | holding => exact ih h
    | activating => exact h.elim

end Own

end Plan

section Planned

attribute [local simp] Task.plan Task.goesOn_iff Code.size Code.rounds Run.Step.liftFault Run.Step.fail
  Value.heedless_asBool Value.heedless_asOrdinal Value.heedless_unary Value.heedless_binary
  Value.heedless_expandRange Value.heedless_withOrdinal Conversion.heedless_apply

/-- What a call does that is not one of a routine of the program. It only makes smaller calls. -/
theorem Task.plan_own (t : Task γ) (h : t.code.isActivation = false) :
    (t.plan env).Own (Run.Step env t) t.GoesOn := by
  obtain ⟨code, chain, depth⟩ := t
  cases code with
  | expr e =>
    cases e with
    | format v w p n => cases p <;> simp [Expr.plan] <;> omega
    | call callee name args n =>
      simp only [plan, Expr.plan, Plan.own_bind, Plan.own_enter, goesOn_iff, Code.size,
        Expr.call.sizeOf_spec]
      refine ⟨.inl (by omega), fun _ => ⟨.inl (by omega), fun result => ?_⟩⟩
      cases result <;> simp
    | literal | range => simp [Expr.plan]
    | _ =>
      simp [Expr.plan]
      omega
  | place p =>
    cases p with
    | var v => exact .lookup rfl
    | deref pointer =>
      simp [Place.plan]
      intro v
      cases v with
      | pointer target => cases target <;> simp
      | _ => simp
    | _ =>
      simp [Place.plan]
      omega
  | items es =>
    cases es with
    | nil => simp [planItems]
    | cons e es => cases e <;> simp [planItems] <;> omega
  | arg x => cases x <;> simp [Arg.plan]
  | args xs =>
    cases xs with
    | nil => simp [planArgs]
    | cons x xs =>
      simp only [plan, planArgs, Plan.own_bind, Plan.own_holding, Plan.own_enter, goesOn_iff, Code.size,
        List.cons.sizeOf_spec]
      exact ⟨.inl (by omega), fun _ => ⟨.inl (by omega), fun _ => .pure _⟩⟩
  | call callee passed =>
    cases callee with
    | user id => cases h
    | native id =>
      simp only [plan, Env.planCall]
      split
      · next r hr => exact .native rfl hr _
      · next hr => exact .missing rfl hr
  | stmt s =>
    have hbegin : Run.Step env ⟨.stmt s, chain, depth⟩ (Run.announce env chain s) := .announce s
    have hset (hs : (Code.stmt s).stores) (r : Ref) (v : Value) :
        Run.Step env ⟨.stmt s, chain, depth⟩ (Run.set r v) := .set hs r v
    have honWorld (hs : (Code.stmt s).stores) {α : Type} (f : World → α × World) :
        Run.Step env ⟨.stmt s, chain, depth⟩ (Run.onWorld f) := .onWorld hs f
    cases s with
    | ifThen condition yes no p =>
      cases no <;> simp [Stmt.plan, Stmt.planAction, planTruth, hbegin] <;> omega
    | caseOf selector arms otherwise p =>
      cases otherwise <;> simp [Stmt.plan, Stmt.planAction, hbegin]
      all_goals
        refine ⟨by omega, by omega, fun flow => ?_⟩
        cases flow <;> simp <;> omega
    | dispose target p =>
      simp [Stmt.plan, Stmt.planAction, hbegin]
      refine ⟨by omega, fun _ v => ?_⟩
      cases v with
      | pointer target => cases target <;> simp
      | _ => simp
    | whileDo condition body p | repeatUntil body condition p =>
      cases p
      simp [Stmt.plan, Stmt.planAction, hbegin]
      omega
    | assign target value p =>
      simp [Stmt.plan, Stmt.planAction, hbegin, hset rfl]
      omega
    | new target pointee p =>
      simp [Stmt.plan, Stmt.planAction, hbegin, hset rfl, honWorld rfl]
      omega
    | forDo counter first direction last body p =>
      cases p
      simp [Stmt.plan, Stmt.planAction, hbegin, hset rfl]
      exact ⟨by omega, by omega, by omega, fun _ => by omega⟩
    | breakLoop | continueLoop | exitRoutine | empty => simp [Stmt.plan, Stmt.planAction, hbegin]
    | _ =>
      simp [Stmt.plan, Stmt.planAction, hbegin]
      omega
  | stmts ss =>
    cases ss with
    | nil => simp [planAll]
    | cons s ss =>
      simp only [plan, planAll, Plan.own_bind, Plan.own_enter, goesOn_iff, Code.size,
        List.cons.sizeOf_spec]
      refine ⟨.inl (by omega), fun flow => ?_⟩
      cases flow with
      | normal => exact goesOn_iff.mpr (.inl (by simp only [Code.size, List.cons.sizeOf_spec]; omega))
      | _ => exact .pure _
  | arms ordinal xs =>
    cases xs with
    | nil => simp [planArm]
    | cons x xs =>
      obtain ⟨labels, body⟩ := x
      simp only [plan, planArm, Plan.own_ite, Plan.own_bind, Plan.own_enter, goesOn_iff, Code.size,
        List.cons.sizeOf_spec, Arm.mk.sizeOf_spec]
      exact ⟨fun _ => ⟨.inl (by omega), fun _ => .pure _⟩, fun _ => .inl (by omega)⟩
  | whileRounds condition body rounds =>
    cases rounds with
    | zero => simp [planWhile]
    | succ n =>
      simp only [plan, planWhile, planTruth, Plan.own_bind, Plan.own_ite, Plan.own_enter,
        Plan.own_action, goesOn_iff, Code.size]
      refine ⟨⟨.inl (by omega), fun _ => by simp⟩, fun _ => ⟨fun _ => ⟨.checkCancelled, fun _ =>
        ⟨.inl (by omega), fun flow => ?_⟩⟩, fun _ => .pure _⟩⟩
      cases flow with
      | normal | continueLoop => exact goesOn_iff.mpr (.inr ⟨rfl, n.lt_succ_self⟩)
      | _ => exact .pure _
  | repeatRounds body condition rounds =>
    cases rounds with
    | zero => simp [planRepeat]
    | succ n =>
      simp only [plan, planRepeat, planTruth, Plan.own_bind, Plan.own_enter, Plan.own_action,
        goesOn_iff, Code.size]
      refine ⟨.checkCancelled, fun _ => ⟨.inl (by omega), fun flow => ?_⟩⟩
      cases flow with
      | normal | continueLoop =>
        simp only [Plan.own_bind, Plan.own_ite, Plan.own_enter, Plan.own_action, goesOn_iff, Code.size]
        exact ⟨⟨.inl (by omega), fun _ => by simp⟩, fun _ => ⟨fun _ => .pure _, fun _ =>
          .inr ⟨trivial, n.lt_succ_self⟩⟩⟩
      | _ => exact .pure _
  | forRounds step counter start body rounds current =>
    cases rounds with
    | zero => simp [planFor]
    | succ n =>
      simp only [plan, planFor, Plan.own_bind, Plan.own_enter, Plan.own_action, goesOn_iff, Code.size]
      refine ⟨.checkCancelled, fun _ => ⟨by simp, fun _ => ⟨.set rfl _ _, fun _ =>
        ⟨.inl (by omega), fun flow => ?_⟩⟩⟩⟩
      cases flow with
      | normal | continueLoop => exact goesOn_iff.mpr (.inr ⟨rfl, n.lt_succ_self⟩)
      | _ => exact .pure _

end Planned

/-- Plans only make smaller calls. -/
theorem Task.plan_below (t : Task α) : (t.plan env).Calls fun t' => t'.Below t := by
  cases hcode : t.code.isActivation with
  | false => exact ((t.plan_own hcode).mono (fun _ h => h) fun _ h => h.below).calls
  | true =>
    obtain ⟨code, chain, depth⟩ := t
    cases code with
    | call callee passed =>
      cases callee with
      | user id =>
        simp only [Task.plan, Env.planCall]
        split
        · trivial
        · cases depth with
          | zero => trivial
          | succ depth => exact ⟨trivial, fun _ => ⟨.inl depth.lt_succ_self, fun _ =>
              ⟨trivial, fun _ => ⟨trivial, fun _ => trivial⟩⟩⟩⟩
      | native id => cases hcode
    | _ => cases hcode

end Pascal
