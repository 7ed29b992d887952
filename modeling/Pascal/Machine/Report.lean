import Pascal.Machine

/-! # What a listener is told

Before each statement a listener is told its line, and after that the variables in sight unless one of
them cannot be read. -/

namespace Pascal

namespace World

/-- The variables of a frame with their values, each as an equation. -/
def describeFrame (w : World) (f : Frame) : List Variable → Except Fault (List String)
  | [] => .ok []
  | v :: vs =>
    match f.slot? (Text.lower v.name) with
    | none => w.describeFrame f vs
    | some r => do
      let value ← w.store.get r
      return (v.name ++ " = " ++ w.render value) :: (← w.describeFrame f vs)

/-- The variables of some frames. -/
def describeFrames (w : World) (arena : Arena) : List Frame → Except Fault (List String)
  | [] => .ok []
  | f :: fs => do
    let entries ← w.describeFrame f (arena.scope f.scope).vars
    return entries ++ (← w.describeFrames arena fs)

end World

namespace Env

/-- The frames in sight: those of the chain, and that of the main program behind them. -/
def framesInSight (env : Env) (chain : Chain) : List Frame :=
  if chain.any (·.scope == env.program.main) then chain
  else chain ++ (env.globals.find? (·.scope == env.program.main)).toList

/-- All variables in sight with their values. -/
def snapshot (env : Env) (chain : Chain) (w : World) : Except Fault String := do
  return ", ".intercalate (← w.describeFrames env.program.arena (env.framesInSight chain))

end Env

namespace Machine

def addReport (m : Machine) (r : Report) : Machine := { m with reports := r :: m.reports }

/-- Tells a listener a line. -/
def reportLine (m : Machine) (l : Listener) (pos : Position) : Machine :=
  let count := m.linesReported + 1
  let cancels := match l.cancelAfter with
    | some n => n < count
    | none => false
  { m.addReport (.line pos) with
    linesReported := count
    world := { m.world with cancelled := m.world.cancelled || cancels } }

/-- Tells the listener, if there is one, that a line comes next, and what the variables are. -/
def announce (m : Machine) (env : Env) (chain : Chain) (pos : Position) : Machine :=
  match env.listener with
  | none => m
  | some l =>
    let text := if env.settings.debugSnapshots then env.snapshot chain m.world else .error .cancelled
    let m := m.reportLine l pos
    match text with
    | .ok text => m.addReport (.message text)
    | .error _ => m

end Machine

/-- Blocks are not announced, only what is in them. -/
def Stmt.isBlock : Stmt → Bool
  | .block _ _ => true
  | _ => false

namespace Run

/-- Announces a statement. -/
def announce (env : Env) (chain : Chain) (s : Stmt) : Run Unit := fun m =>
  .ok () (if s.isBlock then m else m.announce env chain s.pos)

end Run

end Pascal
