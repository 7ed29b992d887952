import Pascal.Program
import Pascal.Settings

/-! # Machines

What a run keeps: the world, the frames of the routines that are active, and what a listener has been
told. A run can stop at a fault; it can also use up the rounds that its loops were granted, which says
nothing about the program. -/

namespace Pascal

/-- The variables of one activation of a scope. -/
structure Frame where
  scope : Nat
  slots : List (String × Ref)

/-- The frames that a piece of code sees besides the global ones, the innermost first. -/
abbrev Chain := List Frame

/-- What a listener is told. -/
inductive Report where
  | line (pos : Position)
  | message (text : String)
deriving DecidableEq, Repr

/-- A listener is told each line before it runs. It may cancel the run when it has been told more
lines than a given number. -/
structure Listener where
  cancelAfter : Option Nat := none

/-- Why a run stops before its end. -/
inductive Stop where
  /-- A fault, and the innermost statement around it once that is known. -/
  | fault (f : Fault) (pos : Option Position)
  /-- A loop has used up the rounds that it was granted. -/
  | exhausted
deriving DecidableEq, Repr

structure Machine where
  world : World
  /-- The frames of all activations in progress. -/
  active : List Frame := []
  /-- The values at hand in expressions that are being evaluated. -/
  held : List Value := []
  /-- What the listener has been told, the latest first. -/
  reports : List Report := []
  /-- How many lines that are. -/
  linesReported : Nat := 0

/-- A step of a machine. Changes made before a stop remain. -/
abbrev Run := EStateM Stop Machine

/-- What stays the same during a run. -/
structure Env where
  program : Program
  settings : Settings
  listener : Option Listener
  /-- The variables of the units and of the main program. -/
  globals : List Frame
  /-- How many rounds each `while` and `repeat` loop is granted. -/
  rounds : Nat

namespace World

/-- A value that a variable of a type starts with. -/
def initialValue (w : World) (ty : Ty) : Value × World :=
  if ty.holdsText then
    let (n, w) := w.newFile
    (ty.initial n, w)
  else (ty.initial 0, w)

/-- A new cell that holds a value. -/
def alloc (w : World) (v : Value) : Ref × World :=
  let (r, store) := w.store.alloc v
  (r, { w with store })

/-- A new cell for a variable. -/
def allocVariable (w : World) (v : Variable) : Ref × World :=
  match v.initial with
  | some value => w.alloc value
  | none =>
    let (value, w) := w.initialValue v.ty
    w.alloc value

/-- Slots for those of some variables that have none yet. -/
def addSlots (w : World) (slots : List (String × Ref)) :
    List Variable → List (String × Ref) × World
  | [] => (slots, w)
  | v :: vs =>
    let key := Text.lower v.name
    if slots.any (·.1 == key) then w.addSlots slots vs
    else
      let (r, w) := w.allocVariable v
      w.addSlots ((key, r) :: slots) vs

end World

namespace Frame

def slot? (f : Frame) (name : String) : Option Ref := (f.slots.find? (·.1 == name)).map (·.2)

end Frame

namespace Env

/-- The storage that a variable stands for: that of the nearest frame of its scope, or else the global
one. -/
def variableRef (env : Env) (chain : Chain) (v : VarRef) : Except Fault Ref :=
  match chain.find? (·.scope == v.scope) with
  | some f =>
    match f.slot? v.name with
    | some r => .ok r
    | none => .error (.internal "variable missing from its frame")
  | none =>
    match (env.globals.find? (·.scope == v.scope)).bind (·.slot? v.name) with
    | some r => .ok r
    | none => .error (.internal "variable has no storage")

end Env

namespace Run

def fail {α : Type} (f : Fault) : Run α := throw (.fault f none)

def liftFault {α : Type} (r : Except Fault α) : Run α :=
  match r with
  | .ok a => pure a
  | .error f => fail f

/-- Lets a function of the world run. -/
def onWorld {α : Type} (f : World → α × World) : Run α := fun m =>
  let (a, world) := f m.world
  .ok a { m with world }

/-- Lets a library routine run. What fails there for a reason of its own is a fault of that routine. -/
def ofHost {α : Type} (name : String) (x : Host α) : Run α := fun m =>
  match x m.world with
  | .ok a world => .ok a { m with world }
  | .error (.fault f) world => .error (.fault f none) { m with world }
  | .error (.host text) world => .error (.fault (.routine name text) none) { m with world }

def get (r : Ref) : Run Value := fun m =>
  match m.world.store.get r with
  | .ok v => .ok v m
  | .error f => .error (.fault f none) m

def set (r : Ref) (v : Value) : Run Unit := fun m =>
  match m.world.store.revised r fun _ => .ok v with
  | .ok v => .ok () { m with world := { m.world with store := m.world.store.put r.cell v } }
  | .error f => .error (.fault f none) m

/-- A value with a column and perhaps a number of decimal places as text. -/
def format (v width : Value) (precision : Option Value) : Run Value := fun m =>
  match Value.format m.world.render v width precision with
  | .ok text => .ok text m
  | .error f => .error (.fault f none) m

/-- Says where a fault happened, unless that was said closer to it. -/
def located {α : Type} (pos : Position) (x : Run α) : Run α := fun m =>
  match x m with
  | .error (.fault f none) m => .error (.fault f (some pos)) m
  | r => r

/-- Stops a run that has been cancelled. -/
def checkCancelled : Run Unit := fun m =>
  if m.world.cancelled then .error (.fault .cancelled none) m else .ok () m

/-- Keeps values at hand while something else runs. -/
def holding {α : Type} (vs : List Value) (x : Run α) : Run α := fun m =>
  match x { m with held := vs ++ m.held } with
  | .ok a m' => .ok a { m' with held := m.held }
  | .error e m' => .error e { m' with held := m.held }

/-- Runs the code of a frame. -/
def activating {α : Type} (f : Frame) (x : Run α) : Run α := fun m =>
  match x { m with active := f :: m.active } with
  | .ok a m' => .ok a { m' with active := m.active }
  | .error e m' => .error e { m' with active := m.active }

end Run

end Pascal
