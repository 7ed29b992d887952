import Pascal.Machine.Exec

/-! # Runs of programs

The units start in the order they depend on each other, the main program runs, and the units end in the
opposite order. -/

namespace Pascal

/-- How a run ends. -/
inductive Outcome where
  | completed
  | cancelled (pos : Option Position)
  | failed (f : Fault) (pos : Option Position)
  /-- The host broke off. -/
  | crashed (what : String)
  /-- A loop used up its rounds before the run could end. -/
  | exhausted
deriving DecidableEq, Repr

namespace Outcome

def ofStop : Stop → Outcome
  | .fault .cancelled pos => cancelled pos
  | .fault (.crash what) _ => crashed what
  | .fault f pos => failed f pos
  | .exhausted => exhausted

private def place : Option Position → String
  | some pos => " at " ++ pos.text
  | none => ""

def message : Outcome → String
  | completed => "Completed"
  | cancelled pos => "Program terminated by user" ++ place pos
  | failed f pos => "Runtime error" ++ place pos ++ ": " ++ f.message
  | crashed what => what
  | exhausted => "Out of rounds"

end Outcome

namespace Program

/-- Frames for the variables of some scopes. -/
def globalFrames (p : Program) : List Nat → World → List Frame × World
  | [], w => ([], w)
  | scope :: scopes, w =>
    let (slots, w) := w.addSlots [] (p.arena.scope scope).vars
    let (frames, w) := p.globalFrames scopes w
    (⟨scope, slots⟩ :: frames, w)

/-- The statements of a whole run in order. -/
def stages (p : Program) : List Stmt :=
  p.units.filterMap (·.initialization) ++ p.body :: p.units.reverse.filterMap (·.finalization)

/-- Runs a program in a world, and lets all its files go in the end. -/
def run (p : Program) (settings : Settings) (listener : Option Listener) (rounds : Nat) (w : World) :
    Outcome × Machine :=
  let (globals, world) := p.globalFrames (p.units.map (·.scope) ++ [p.main]) w
  let env : Env := { program := p, settings, listener, globals, rounds }
  match p.stages.forM env.execTop { world } with
  | .ok _ m => (.completed, m.releaseAll)
  | .error stop m => (.ofStop stop, m.releaseAll)

end Program

end Pascal
