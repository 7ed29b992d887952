import Pascal.Machine.Eval
import Pascal.Machine.Report

/-! # Execution of statements

A statement ends normally, or it leaves the loop or the routine around it. A routine of the program runs
with one more activation allowed less inside it. -/

namespace Pascal

/-- How a statement ends. -/
inductive Flow where
  | normal | breakLoop | continueLoop | exitRoutine
deriving DecidableEq, Repr

/-- Whether a label names an ordinal. -/
def Label.names (ordinal : Int) : Label → Bool
  | .value v =>
    match v.asOrdinal with
    | .ok n => n == ordinal
    | .error _ => false
  | .range low high =>
    match low.asOrdinal, high.asOrdinal with
    | .ok l, .ok h => l ≤ ordinal && ordinal ≤ h
    | _, _ => false

namespace Run

/-- A condition as a truth value. -/
def truth (x : Run Value) : Run Bool := do liftFault (← x).asBool

/-- The rounds of a `while` loop. -/
def whileRounds (condition : Run Bool) (check : Run Unit) (body : Run Flow) : Nat → Run Flow
  | 0 => throw .exhausted
  | n + 1 => do
    if ← condition then
      check
      match ← body with
      | .breakLoop => return .normal
      | .exitRoutine => return .exitRoutine
      | .normal | .continueLoop => whileRounds condition check body n
    else return .normal

/-- The rounds of a `repeat` loop. -/
def repeatRounds (condition : Run Bool) (check : Run Unit) (body : Run Flow) : Nat → Run Flow
  | 0 => throw .exhausted
  | n + 1 => do
    check
    match ← body with
    | .breakLoop => return .normal
    | .exitRoutine => return .exitRoutine
    | .normal | .continueLoop =>
      if ← condition then return .normal else repeatRounds condition check body n

/-- The remaining rounds of a `for` loop, whose counter goes on from `current`. -/
def forRounds (step : Int) (setCounter : Int → Run Unit) (check : Run Unit) (body : Run Flow) :
    Nat → Int → Run Flow
  | 0, _ => return .normal
  | n + 1, current => do
    check
    setCounter current
    match ← body with
    | .breakLoop => return .normal
    | .exitRoutine => return .exitRoutine
    | .normal | .continueLoop => forRounds step setCounter check body n (current + step)

end Run

namespace Direction

def step : Direction → Int
  | up => 1
  | down => -1

/-- How many values a counter takes from the first to the last one. -/
def rounds (d : Direction) (first last : Int) : Nat :=
  match d with
  | up => (last - first + 1).toNat
  | down => (first - last + 1).toNat

end Direction

mutual

/-- Runs a statement. -/
def Stmt.exec (env : Env) (caller : Caller) (chain : Chain) (s : Stmt) : Run Flow := do
  Run.located s.pos Run.checkCancelled
  Run.announce env chain s
  let flow ← Run.located s.pos <| match s with
    | .block body _ => execAll env caller chain body
    | .assign target value _ => do
      let v ← value.eval env caller chain
      Run.set (← Run.holding [v] (target.resolve env caller chain)) v
      return .normal
    | .call callee _ args _ => do
      let passed ← evalArgs env caller chain args
      let _ ← env.call caller chain callee passed
      return .normal
    | .ifThen condition yes none _ => do
      if ← Run.truth (condition.eval env caller chain) then yes.exec env caller chain
      else return .normal
    | .ifThen condition yes (some no) _ => do
      if ← Run.truth (condition.eval env caller chain) then yes.exec env caller chain
      else no.exec env caller chain
    | .whileDo condition body _ =>
      Run.whileRounds (Run.truth (condition.eval env caller chain)) Run.checkCancelled
        (body.exec env caller chain) env.rounds
    | .repeatUntil body condition _ =>
      Run.repeatRounds (Run.truth (condition.eval env caller chain)) Run.checkCancelled
        (execAll env caller chain body) env.rounds
    | .forDo counter first direction last body _ => do
      let start ← first.eval env caller chain
      let stop ← Run.liftFault (← last.eval env caller chain).asOrdinal
      let r ← counter.resolve env caller chain
      Run.set r start
      let begins ← Run.liftFault start.asOrdinal
      Run.forRounds direction.step
        (fun current => do Run.set r (← Run.liftFault (start.withOrdinal current)))
        Run.checkCancelled (body.exec env caller chain) (direction.rounds begins stop) begins
    | .caseOf selector arms none _ => do
      let ordinal ← Run.liftFault (← selector.eval env caller chain).asOrdinal
      match ← execArm env caller chain ordinal arms with
      | some flow => return flow
      | none => return .normal
    | .caseOf selector arms (some otherwise) _ => do
      let ordinal ← Run.liftFault (← selector.eval env caller chain).asOrdinal
      match ← execArm env caller chain ordinal arms with
      | some flow => return flow
      | none => otherwise.exec env caller chain
    | .breakLoop _ => return .breakLoop
    | .continueLoop _ => return .continueLoop
    | .exitRoutine _ => return .exitRoutine
    | .new target pointee _ => do
      let v ← Run.onWorld fun w => w.initialValue pointee
      let storage ← Run.onWorld fun w => w.alloc v
      let p := Value.pointer (some storage)
      Run.set (← Run.holding [p] (target.resolve env caller chain)) p
      return .normal
    | .dispose target _ => do
      let r ← target.resolve env caller chain
      match ← Run.get r with
      | .pointer none => Run.fail .nilDereference
      | _ =>
        Run.set r (.pointer none)
        return .normal
    | .empty _ => return .normal
  Run.releaseForgotten env []
  return flow

/-- Runs statements up to the first one that does not end normally. -/
def execAll (env : Env) (caller : Caller) (chain : Chain) : List Stmt → Run Flow
  | [] => return .normal
  | s :: ss => do
    match ← s.exec env caller chain with
    | .normal => execAll env caller chain ss
    | flow => return flow

/-- Runs the first arm with a label that names the ordinal, if there is one. -/
def execArm (env : Env) (caller : Caller) (chain : Chain) (ordinal : Int) :
    List Arm → Run (Option Flow)
  | [] => return none
  | .mk labels body :: arms => do
    if labels.any (·.names ordinal) then return some (← body.exec env caller chain)
    else execArm env caller chain ordinal arms

end

namespace UserRoutine

/-- The slots of the parameters. What is passed by value gets a cell of its own. -/
def bindParams : List Parameter → List Passed → World → List (String × Ref) × World
  | p :: ps, a :: as, w =>
    let (r, w) := match a with
      | .value v => w.alloc v
      | .reference r => (r, w)
    let (slots, w) := bindParams ps as w
    ((Text.lower p.name, r) :: slots, w)
  | _, _, w => ([], w)

/-- A new frame for a call of the routine. -/
def newFrame (f : UserRoutine) (vars : List Variable) (args : List Passed) (w : World) :
    Frame × World :=
  let (slots, w) := bindParams f.signature.params args w
  let (slots, w) := w.addSlots slots vars
  (⟨f.scope, slots⟩, w)

/-- The frames that the code of the routine sees around its own, from those its caller sees: it begins
with the frame of the scope that declares the routine. -/
def outerFrames (f : UserRoutine) (chain : Chain) : Chain :=
  chain.dropWhile (·.scope != f.declaredIn)

end UserRoutine

namespace Env

/-- Runs the body of a routine in a frame of its own, and reads its result. -/
def activate (env : Env) (caller : Caller) (chain : Chain) (f : UserRoutine) (body : Stmt)
    (args : List Passed) : Run (Option Value) := do
  let frame ← Run.onWorld (f.newFrame (env.program.arena.scope f.scope).vars args)
  let _ ← Run.activating frame (body.exec env caller (frame :: f.outerFrames chain))
  let result ←
    match f.signature.result with
    | none => pure none
    | some _ =>
      match frame.slot? resultName with
      | none => Run.fail (.internal "function frame has no result")
      | some r => some <$> Run.get r
  Run.releaseForgotten env result.toList
  return result

/-- Calls a routine of the program where so many more may be active. -/
def callWithin (env : Env) : Nat → Caller
  | depth, chain, id, args =>
    let f := env.program.arena.function id
    match f.body with
    | none => Run.fail (.internal "routine has no body")
    | some body =>
      match depth with
      | 0 => Run.fail (.stackOverflow env.settings.maxCallDepth)
      | depth + 1 => env.activate (env.callWithin depth) chain f body args

/-- Runs a statement of the main program or of a unit. -/
def execTop (env : Env) (s : Stmt) : Run Unit := do
  let _ ← s.exec env (env.callWithin env.settings.maxCallDepth) []

end Env

end Pascal
