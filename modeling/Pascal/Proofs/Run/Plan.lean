import Pascal.Program.Run

/-!
# Runs taken apart

The evaluators call one another. A plan spells out one of their calls: what it does itself, and which
calls it makes in between. All machines that a run goes through are then machines at which some call
begins or ends.
-/

namespace Pascal

/-- The machine that a computation leaves behind. -/
def Run.after {α : Type} : EStateM.Result Stop Machine α → Machine
  | .ok _ m | .error _ m => m

/-- The code that a call is about, by what the call results in. -/
inductive Code : Type → Type where
  | expr (e : Expr) : Code Value
  | place (p : Place) : Code Ref
  | items (es : List Expr) : Code (List Value)
  | arg (arg : Arg) : Code Passed
  | args (args : List Arg) : Code (List Passed)
  | call (callee : Callee) (passed : List Passed) : Code (Option Value)
  | stmt (s : Stmt) : Code Flow
  | stmts (ss : List Stmt) : Code Flow
  | arms (ordinal : Int) (arms : List Arm) : Code (Option Flow)
  | whileRounds (condition : Expr) (body : Stmt) (rounds : Nat) : Code Flow
  | repeatRounds (body : List Stmt) (condition : Expr) (rounds : Nat) : Code Flow
  | forRounds (step : Int) (counter : Ref) (start : Value) (body : Stmt) (rounds : Nat)
      (current : Int) : Code Flow

/-- Whether a call is one of a routine of the program. -/
def Code.isActivation {α : Type} : Code α → Bool
  | .call (.user _) _ => true
  | _ => false

/-- Code, the frames it sees, and how many more routines may be active inside it. -/
structure Task (α : Type) where
  code : Code α
  chain : Chain
  depth : Nat

/-- What surrounds a part of a run. -/
inductive Around where
  | located (pos : Position)
  | holding (vs : List Value)
  | activating (f : Frame)

namespace Around

def perform {α : Type} : Around → Run α → Run α
  | located pos, x => Run.located pos x
  | holding vs, x => Run.holding vs x
  | activating f, x => Run.activating f x

/-- The machine that the part begins with. -/
def enter : Around → Machine → Machine
  | located _, m => m
  | holding vs, m => { m with held := vs ++ m.held }
  | activating f, m => { m with active := f :: m.active }

/-- What becomes of a result of the part that began on a machine. -/
def leave {α : Type} (m : Machine) : Around → EStateM.Result Stop Machine α →
    EStateM.Result Stop Machine α
  | located pos, .error (.fault f none) m' => .error (.fault f (some pos)) m'
  | located _, r => r
  | holding _, .ok a m' => .ok a { m' with held := m.held }
  | holding _, .error e m' => .error e { m' with held := m.held }
  | activating _, .ok a m' => .ok a { m' with active := m.active }
  | activating _, .error e m' => .error e { m' with active := m.active }

theorem perform_eq {α : Type} (a : Around) (x : Run α) (m : Machine) :
    a.perform x m = a.leave m (x (a.enter m)) := by
  cases a with
  | located pos =>
    simp only [perform, Run.located, enter]
    split
    · next h => rw [h]; rfl
    · next h => unfold leave; split <;> simp_all
  | holding vs => simp only [perform, Run.holding, enter]; split <;> rename_i h <;> rw [h] <;> rfl
  | activating f => simp only [perform, Run.activating, enter]; split <;> rename_i h <;> rw [h] <;> rfl

theorem after_leave_located {α : Type} (pos : Position) (m : Machine)
    (r : EStateM.Result Stop Machine α) : Run.after ((located pos).leave m r) = Run.after r := by
  cases r with
  | ok a m' => rfl
  | error e m' =>
    cases e with
    | fault f pos => cases pos <;> rfl
    | exhausted => rfl

end Around

/-- A result that is a fault. -/
def Run.Raises {α : Type} (f : Fault) (r : EStateM.Result Stop Machine α) : Prop :=
  ∃ pos m, r = .error (.fault f pos) m

/-- What surrounds a part of a run does not catch its faults and adds none. -/
theorem Around.raises_leave {α : Type} {f : Fault} {a : Around} {m : Machine}
    {r : EStateM.Result Stop Machine α} : Run.Raises f (a.leave m r) ↔ Run.Raises f r := by
  cases r with
  | ok v m' => cases a <;> simp [Run.Raises, leave]
  | error e m' =>
    cases e with
    | exhausted => cases a <;> simp [Run.Raises, leave]
    | fault g pos =>
      cases a with
      | located place => cases pos <;> simp [Run.Raises, leave]
      | _ => simp [Run.Raises, leave]

/-- What a call does itself, and the calls it makes. -/
inductive Plan : Type → Type 1 where
  | action {α : Type} (x : Run α) : Plan α
  | call {α : Type} (t : Task α) : Plan α
  | bind {α β : Type} (p : Plan α) (next : α → Plan β) : Plan β
  | within {α : Type} (a : Around) (p : Plan α) : Plan α

instance : Monad Plan where
  pure a := .action (pure a)
  bind := .bind

namespace Task

/-- Makes a call. -/
def perform (env : Env) {α : Type} (t : Task α) : Run α :=
  let ⟨code, chain, depth⟩ := t
  let caller := env.callWithin depth
  match code with
  | .expr e => e.eval env caller chain
  | .place p => p.resolve env caller chain
  | .items es => evalItems env caller chain es
  | .arg a => a.pass env caller chain
  | .args as => evalArgs env caller chain as
  | .call callee passed => env.call caller chain callee passed
  | .stmt s => s.exec env caller chain
  | .stmts ss => execAll env caller chain ss
  | .arms ordinal as => execArm env caller chain ordinal as
  | .whileRounds condition body rounds =>
    Run.whileRounds (Run.truth (condition.eval env caller chain)) Run.checkCancelled
      (body.exec env caller chain) rounds
  | .repeatRounds body condition rounds =>
    Run.repeatRounds (Run.truth (condition.eval env caller chain)) Run.checkCancelled
      (execAll env caller chain body) rounds
  | .forRounds step counter start body rounds current =>
    Run.forRounds step
      (fun current => do Run.set counter (← Run.liftFault (start.withOrdinal current)))
      Run.checkCancelled (body.exec env caller chain) rounds current

end Task

namespace Plan

/-- Does what is planned. -/
def perform (env : Env) {α : Type} : Plan α → Run α
  | action x => x
  | call t => t.perform env
  | bind p next => p.perform env >>= fun a => (next a).perform env
  | within a p => a.perform (p.perform env)

variable {env : Env} {α β : Type}

theorem perform_bind (p : Plan α) (next : α → Plan β) :
    (p >>= next).perform env = p.perform env >>= fun a => (next a).perform env := rfl

theorem perform_bind_eq {p : Plan α} {next : α → Plan β} {x : Run α} {f : α → Run β}
    (h : p.perform env = x) (hf : ∀ a, (next a).perform env = f a) :
    (p >>= next).perform env = x >>= f := by
  rw [perform_bind, h]
  exact congrArg _ (funext hf)

theorem perform_ite {c : Prop} [Decidable c] (p q : Plan α) :
    (if c then p else q).perform env = if c then p.perform env else q.perform env := by
  split <;> rfl

end Plan

section Plans

variable (env : Env) (depth : Nat) (chain : Chain)

/-- A call for other code. -/
abbrev Plan.enter {α : Type} (c : Code α) : Plan α := .call ⟨c, chain, depth⟩

namespace Expr

open Plan

def plan : Expr → Plan Value
  | .literal v _ => return v
  | .place p _ => do action (Run.get (← enter depth chain (.place p)))
  | .array lower items _ => do return .array lower (← enter depth chain (.items items))
  | .range _ _ _ => action (Run.fail (.internal "range outside of an array constructor"))
  | .address p _ => do return .pointer (some (← enter depth chain (.place p)))
  | .unary op e _ => do
    let v ← enter depth chain (.expr e)
    action (Run.liftFault (Value.unary op v))
  | .binary op l r _ => do
    let left ← enter depth chain (.expr l)
    if op.isLazy l.ty then
      if op.decides (← action (Run.liftFault left.asBool)) then return left
      let right ← enter depth chain (.expr r)
      return .boolean (← action (Run.liftFault right.asBool))
    else
      let right ← within (.holding [left]) (enter depth chain (.expr r))
      action (Run.liftFault (Value.binary op left right))
  | .convert c e _ => do
    let v ← enter depth chain (.expr e)
    action (Run.liftFault (c.apply v))
  | .format e w none _ => do
    let v ← enter depth chain (.expr e)
    let width ← within (.holding [v]) (enter depth chain (.expr w))
    action (Run.format v width none)
  | .format e w (some p) _ => do
    let v ← enter depth chain (.expr e)
    let width ← within (.holding [v]) (enter depth chain (.expr w))
    let precision ← within (.holding [v]) (enter depth chain (.expr p))
    action (Run.format v width (some precision))
  | .call callee _ args _ => do
    let passed ← enter depth chain (.args args)
    match ← enter depth chain (.call callee passed) with
    | some v => return v
    | none => action (Run.fail (.internal "routine returned no value"))

end Expr

open Plan

def Place.plan : Place → Plan Ref
  | .var v => action (Run.liftFault (env.variableRef chain v))
  | .element base index => do
    let i ← action (Run.liftFault (← enter depth chain (.expr index)).asOrdinal)
    return (← enter depth chain (.place base)).element i
  | .charAt base index => do
    let i ← action (Run.liftFault (← enter depth chain (.expr index)).asOrdinal)
    return (← enter depth chain (.place base)).charAt i
  | .deref pointer => do
    match ← enter depth chain (.expr pointer) with
    | .pointer (some r) => return r
    | .pointer none => action (Run.fail .nilDereference)
    | v => action (Run.fail (v.mismatch "pointer"))

def planItems : List Expr → Plan (List Value)
  | [] => return []
  | .range low high _ :: items => do
    let first ← enter depth chain (.expr low)
    let last ← enter depth chain (.expr high)
    let vs ← action (Run.liftFault (Value.expandRange first last))
    return vs ++ (← enter depth chain (.items items))
  | item :: items => do
    let v ← enter depth chain (.expr item)
    return v :: (← within (.holding [v]) (enter depth chain (.items items)))

def Arg.plan : Arg → Plan Passed
  | .value e => do return .value (← enter depth chain (.expr e))
  | .reference p => do return .reference (← enter depth chain (.place p))

def planArgs : List Arg → Plan (List Passed)
  | [] => return []
  | a :: as => do
    let passed ← enter depth chain (.arg a)
    return passed :: (← within (.holding [passed.toValue]) (enter depth chain (.args as)))

namespace Env

/-- The call of a routine of the program whose body is known. -/
def planActivation (f : UserRoutine) (body : Stmt) (passed : List Passed) :
    Plan (Option Value) := do
  let frame ← action
    (Run.onWorld (f.newFrame (env.program.arena.scope f.scope).vars passed))
  let _ ← within (.activating frame) (enter depth (frame :: f.outerFrames chain) (.stmt body))
  let result ← action <|
    match f.signature.result with
    | none => pure none
    | some _ =>
      match frame.slot? resultName with
      | none => Run.fail (.internal "function frame has no result")
      | some r => some <$> Run.get r
  action (Run.releaseForgotten env result.toList)
  return result

def planCall : Callee → List Passed → Plan (Option Value)
  | .user id, passed =>
    let f := env.program.arena.function id
    match f.body with
    | none => action (Run.fail (.internal "routine has no body"))
    | some body =>
      match depth with
      | 0 => action (Run.fail (.stackOverflow env.settings.maxCallDepth))
      | depth + 1 => env.planActivation depth chain f body passed
  | .native id, passed =>
    match env.program.arena.natives[id]? with
    | some routine => action (Run.ofHost routine.name (routine.run (passed.map Passed.toValue)))
    | none => action (Run.fail (.internal "routine has no body"))

end Env

/-- A condition as a truth value. -/
def planTruth (condition : Expr) : Plan Bool := do
  action (Run.liftFault (← enter depth chain (.expr condition)).asBool)

namespace Stmt

/-- What a statement does between its beginning and its end. -/
def planAction : Stmt → Plan Flow
  | .block body _ => enter depth chain (.stmts body)
  | .assign target value _ => do
    let v ← enter depth chain (.expr value)
    action (Run.set (← within (.holding [v]) (enter depth chain (.place target))) v)
    return .normal
  | .call callee _ args _ => do
    let passed ← enter depth chain (.args args)
    let _ ← enter depth chain (.call callee passed)
    return .normal
  | .ifThen condition yes none _ => do
    if ← planTruth depth chain condition then enter depth chain (.stmt yes)
    else return .normal
  | .ifThen condition yes (some no) _ => do
    if ← planTruth depth chain condition then enter depth chain (.stmt yes)
    else enter depth chain (.stmt no)
  | .whileDo condition body _ => enter depth chain (.whileRounds condition body env.rounds)
  | .repeatUntil body condition _ =>
    enter depth chain (.repeatRounds body condition env.rounds)
  | .forDo counter first direction last body _ => do
    let start ← enter depth chain (.expr first)
    let stop ← action (Run.liftFault (← enter depth chain (.expr last)).asOrdinal)
    let r ← enter depth chain (.place counter)
    action (Run.set r start)
    let begins ← action (Run.liftFault start.asOrdinal)
    enter depth chain
      (.forRounds direction.step r start body (direction.rounds begins stop) begins)
  | .caseOf selector arms none _ => do
    let ordinal ← action (Run.liftFault (← enter depth chain (.expr selector)).asOrdinal)
    match ← enter depth chain (.arms ordinal arms) with
    | some flow => return flow
    | none => return .normal
  | .caseOf selector arms (some otherwise) _ => do
    let ordinal ← action (Run.liftFault (← enter depth chain (.expr selector)).asOrdinal)
    match ← enter depth chain (.arms ordinal arms) with
    | some flow => return flow
    | none => enter depth chain (.stmt otherwise)
  | .breakLoop _ => return .breakLoop
  | .continueLoop _ => return .continueLoop
  | .exitRoutine _ => return .exitRoutine
  | .new target pointee _ => do
    let v ← action (Run.onWorld fun w => w.initialValue pointee)
    let storage ← action (Run.onWorld fun w => w.alloc v)
    let p := Value.pointer (some storage)
    action (Run.set (← within (.holding [p]) (enter depth chain (.place target))) p)
    return .normal
  | .dispose target _ => do
    let r ← enter depth chain (.place target)
    match ← action (Run.get r) with
    | .pointer none => action (Run.fail .nilDereference)
    | _ =>
      action (Run.set r (.pointer none))
      return .normal
  | .empty _ => return .normal

def plan (s : Stmt) : Plan Flow := do
  within (.located s.pos) (action Run.checkCancelled)
  action (Run.announce env chain s)
  let flow ← within (.located s.pos) (s.planAction env depth chain)
  action (Run.releaseForgotten env [])
  return flow

end Stmt

def planAll : List Stmt → Plan Flow
  | [] => return .normal
  | s :: ss => do
    match ← enter depth chain (.stmt s) with
    | .normal => enter depth chain (.stmts ss)
    | flow => return flow

def planArm (ordinal : Int) : List Arm → Plan (Option Flow)
  | [] => return none
  | .mk labels body :: arms => do
    if labels.any (·.names ordinal) then return some (← enter depth chain (.stmt body))
    else enter depth chain (.arms ordinal arms)

def planWhile (condition : Expr) (body : Stmt) : Nat → Plan Flow
  | 0 => action (throw .exhausted)
  | n + 1 => do
    if ← planTruth depth chain condition then
      action Run.checkCancelled
      match ← enter depth chain (.stmt body) with
      | .breakLoop => return .normal
      | .exitRoutine => return .exitRoutine
      | .normal | .continueLoop => enter depth chain (.whileRounds condition body n)
    else return .normal

def planRepeat (body : List Stmt) (condition : Expr) : Nat → Plan Flow
  | 0 => action (throw .exhausted)
  | n + 1 => do
    action Run.checkCancelled
    match ← enter depth chain (.stmts body) with
    | .breakLoop => return .normal
    | .exitRoutine => return .exitRoutine
    | .normal | .continueLoop =>
      if ← planTruth depth chain condition then return .normal
      else enter depth chain (.repeatRounds body condition n)

def planFor (step : Int) (counter : Ref) (start : Value) (body : Stmt) :
    Nat → Int → Plan Flow
  | 0, _ => return .normal
  | n + 1, current => do
    action Run.checkCancelled
    action (Run.set counter (← action (Run.liftFault (start.withOrdinal current))))
    match ← enter depth chain (.stmt body) with
    | .breakLoop => return .normal
    | .exitRoutine => return .exitRoutine
    | .normal | .continueLoop =>
      enter depth chain (.forRounds step counter start body n (current + step))

end Plans

namespace Task

/-- How a call is made. -/
def plan (env : Env) {α : Type} (t : Task α) : Plan α :=
  let ⟨code, chain, depth⟩ := t
  match code with
  | .expr e => e.plan depth chain
  | .place p => p.plan env depth chain
  | .items es => planItems depth chain es
  | .arg a => a.plan depth chain
  | .args as => planArgs depth chain as
  | .call callee passed => env.planCall depth chain callee passed
  | .stmt s => s.plan env depth chain
  | .stmts ss => planAll depth chain ss
  | .arms ordinal as => planArm depth chain ordinal as
  | .whileRounds condition body rounds => planWhile depth chain condition body rounds
  | .repeatRounds body condition rounds => planRepeat depth chain body condition rounds
  | .forRounds step counter start body rounds current =>
    planFor depth chain step counter start body rounds current

end Task

section Performing

variable {env : Env} {chain : Chain} {depth : Nat}

open Plan (perform_bind perform_bind_eq perform_ite)

private theorem Expr.perform_plan (e : Expr) :
    (e.plan depth chain).perform env = e.eval env (env.callWithin depth) chain := by
  cases e with
  | format e w p n => cases p <;> rfl
  | binary op l r n =>
    simp only [Expr.plan, Expr.eval, perform_bind, perform_ite]
    rfl
  | call callee name args n =>
    refine perform_bind_eq rfl fun passed => perform_bind_eq rfl fun result => ?_
    cases result <;> rfl
  | _ => rfl

private theorem Place.perform_plan (p : Place) :
    (p.plan env depth chain).perform env = p.resolve env (env.callWithin depth) chain := by
  cases p with
  | deref pointer =>
    refine perform_bind_eq rfl fun v => ?_
    cases v with
    | pointer target => cases target <;> rfl
    | _ => rfl
  | _ => rfl

private theorem perform_planItems (es : List Expr) :
    (planItems depth chain es).perform env = evalItems env (env.callWithin depth) chain es := by
  cases es with
  | nil => rfl
  | cons e es => cases e <;> rfl

private theorem perform_planArgs (as : List Arg) :
    (planArgs depth chain as).perform env = evalArgs env (env.callWithin depth) chain as := by
  cases as <;> rfl

private theorem Env.perform_planActivation (f : UserRoutine) (body : Stmt) (passed : List Passed) :
    (env.planActivation depth chain f body passed).perform env =
      env.activate (env.callWithin depth) chain f body passed := by
  refine perform_bind_eq rfl fun frame => perform_bind_eq rfl fun _ => ?_
  cases f.signature.result with
  | none => rfl
  | some t => cases frame.slot? resultName <;> rfl

private theorem Env.perform_planCall (callee : Callee) (passed : List Passed) :
    (env.planCall depth chain callee passed).perform env =
      env.call (env.callWithin depth) chain callee passed := by
  cases callee with
  | user id =>
    simp only [planCall, call]
    cases hb : (env.program.arena.function id).body with
    | none => cases depth <;> simp only [callWithin, hb] <;> rfl
    | some body =>
      cases depth with
      | zero => simp only [callWithin, hb]; rfl
      | succ depth =>
        simp only [callWithin, hb]
        exact env.perform_planActivation _ _ _
  | native id =>
    simp only [planCall, call]
    cases env.program.arena.natives[id]? <;> rfl

private theorem Stmt.perform_plan (s : Stmt) :
    (s.plan env depth chain).perform env = s.exec env (env.callWithin depth) chain := by
  have hplan : ∀ x : Run Flow, (s.planAction env depth chain).perform env = x →
      (s.plan env depth chain).perform env = do
        Run.located s.pos Run.checkCancelled
        Run.announce env chain s
        let flow ← Run.located s.pos x
        Run.releaseForgotten env []
        return flow := by
    rintro x rfl
    rfl
  cases s with
  | ifThen c yes no p =>
    cases no with
    | none => refine hplan _ ?_; simp only [planAction, perform_bind, perform_ite]; rfl
    | some no => refine hplan _ ?_; simp only [planAction, perform_bind, perform_ite]; rfl
  | caseOf selector arms otherwise p =>
    have hselector : (Plan.enter depth chain (.expr selector)).perform env =
        selector.eval env (env.callWithin depth) chain := rfl
    cases otherwise with
    | none =>
      refine hplan _ (perform_bind_eq hselector fun v => perform_bind_eq rfl fun ordinal =>
        perform_bind_eq rfl fun flow => ?_)
      cases flow <;> rfl
    | some otherwise =>
      refine hplan _ (perform_bind_eq hselector fun v => perform_bind_eq rfl fun ordinal =>
        perform_bind_eq rfl fun flow => ?_)
      cases flow <;> rfl
  | dispose target p =>
    refine hplan _ (perform_bind_eq rfl fun r => perform_bind_eq rfl fun v => ?_)
    cases v with
    | pointer target => cases target <;> rfl
    | _ => rfl
  | _ => exact hplan _ rfl

private theorem perform_planAll (ss : List Stmt) :
    (planAll depth chain ss).perform env = execAll env (env.callWithin depth) chain ss := by
  cases ss with
  | nil => rfl
  | cons s ss =>
    refine perform_bind_eq rfl fun flow => ?_
    cases flow <;> rfl

private theorem perform_planArm (ordinal : Int) (as : List Arm) :
    (planArm depth chain ordinal as).perform env =
      execArm env (env.callWithin depth) chain ordinal as := by
  cases as with
  | nil => rfl
  | cons a as =>
    obtain ⟨labels, body⟩ := a
    simp only [planArm, execArm, perform_ite]
    rfl

section Rounds

variable {condition : Expr}

private theorem perform_planTruth : (planTruth depth chain condition).perform env =
    Run.truth (condition.eval env (env.callWithin depth) chain) := rfl

private theorem perform_planWhile (body : Stmt) (n : Nat) :
    (planWhile depth chain condition body n).perform env =
      Run.whileRounds (Run.truth (condition.eval env (env.callWithin depth) chain))
        Run.checkCancelled (body.exec env (env.callWithin depth) chain) n := by
  cases n with
  | zero => rfl
  | succ n =>
    refine perform_bind_eq perform_planTruth fun b => ?_
    rw [perform_ite]
    split
    · refine perform_bind_eq rfl fun _ => perform_bind_eq rfl fun flow => ?_
      cases flow <;> rfl
    · rfl

private theorem perform_planRepeat (body : List Stmt) (n : Nat) :
    (planRepeat depth chain body condition n).perform env =
      Run.repeatRounds (Run.truth (condition.eval env (env.callWithin depth) chain))
        Run.checkCancelled (execAll env (env.callWithin depth) chain body) n := by
  cases n with
  | zero => rfl
  | succ n =>
    refine perform_bind_eq rfl fun _ => perform_bind_eq rfl fun flow => ?_
    cases flow with
    | normal | continueLoop =>
      exact perform_bind_eq perform_planTruth fun b => perform_ite _ _
    | _ => rfl

private theorem perform_planFor (step : Int) (counter : Ref) (start : Value) (body : Stmt) (n : Nat)
    (current : Int) : (planFor depth chain step counter start body n current).perform env =
      Run.forRounds step
        (fun current => do Run.set counter (← Run.liftFault (start.withOrdinal current)))
        Run.checkCancelled (body.exec env (env.callWithin depth) chain) n current := by
  cases n with
  | zero => rfl
  | succ n =>
    rw [planFor, Run.forRounds, bind_assoc]
    refine perform_bind_eq rfl fun _ => perform_bind_eq rfl fun v => perform_bind_eq rfl fun _ =>
      perform_bind_eq rfl fun flow => ?_
    cases flow <;> rfl

end Rounds

/-- A call is made as it is planned. -/
theorem Task.perform_plan {α : Type} (t : Task α) : (t.plan env).perform env = t.perform env := by
  obtain ⟨code, chain, depth⟩ := t
  cases code with
  | expr e => exact e.perform_plan
  | place p => exact p.perform_plan
  | items es => exact perform_planItems es
  | arg a => cases a <;> rfl
  | args as => exact perform_planArgs as
  | call callee passed => exact env.perform_planCall callee passed
  | stmt s => exact s.perform_plan
  | stmts ss => exact perform_planAll ss
  | arms ordinal as => exact perform_planArm ordinal as
  | whileRounds condition body rounds => exact perform_planWhile body rounds
  | repeatRounds body condition rounds => exact perform_planRepeat body rounds
  | forRounds step counter start body rounds current =>
    exact perform_planFor step counter start body rounds current

end Performing

end Pascal
