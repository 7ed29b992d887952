import Pascal.Machine

/-! # Forgotten files

A text file that no variable, no pointer and no value at hand leads to any more is forgotten: what it
kept back is delivered to the disk. -/

namespace Pascal

namespace Value

mutual

/-- The cells that a value refers to directly. -/
def cells : Value → List Nat
  | pointer (some r) => [r.cell]
  | array _ items => cellsOf items
  | _ => []

def cellsOf : List Value → List Nat
  | [] => []
  | v :: vs => cells v ++ cellsOf vs

end

mutual

/-- The text files that a value refers to directly. -/
def files : Value → List Nat
  | text file => [file]
  | array _ items => filesOf items
  | _ => []

def filesOf : List Value → List Nat
  | [] => []
  | v :: vs => files v ++ filesOf vs

end

end Value

namespace Store

/-- The value of a cell, or `nil` for one that is lent out. -/
def content (s : Store) (cell : Nat) : Value := (s.cells[cell]?.join).getD (.pointer none)

/-- The cells that those in `seen` and those in `found` lead to in so many steps at most. -/
def closure (s : Store) : Nat → List Nat → List Nat → List Nat
  | 0, seen, found => found ++ seen
  | steps + 1, seen, found =>
    match (found.filter (fun c => !seen.contains c)).eraseDups with
    | [] => seen
    | new => s.closure steps (new ++ seen) (new.flatMap fun c => (s.content c).cells)

/-- The cells that some values lead to. Each step reaches a cell that was not reached before, or is the
last one. -/
def reached (s : Store) (vs : List Value) : List Nat :=
  s.closure (s.size + 1) [] (Value.cellsOf vs)

end Store

namespace Machine

/-- The storage of all variables that can still be named. -/
def slots (env : Env) (m : Machine) : List Ref :=
  (env.globals ++ m.active).flatMap fun f => f.slots.map (·.2)

/-- The text files that values at hand and variables hold, without following pointers. -/
def filesInSight (env : Env) (m : Machine) : List Nat :=
  Value.filesOf m.held ++ (m.slots env).flatMap fun r => (m.world.store.content r.cell).files

/-- All that is still in use. -/
def roots (env : Env) (m : Machine) : List Value :=
  m.held ++ (m.slots env).map fun r => .pointer (some r)

/-- The text files that are still in use. -/
def filesInUse (env : Env) (m : Machine) : List Nat :=
  let vs := m.roots env
  Value.filesOf vs ++ (m.world.store.reached vs).flatMap fun c => (m.world.store.content c).files

/-- The text files that have something to deliver. -/
def dirtyFiles (m : Machine) : List Nat :=
  (List.range m.world.files.size).filter fun n => (m.world.file n).isDirty

/-- Lets a text file go. -/
def letGo (m : Machine) (file : Nat) : Machine :=
  let f := m.world.file file
  let world := m.world.setFile file { f with state := .closed }
  { m with world := { world with disk := f.release m.world.disk } }

/-- Lets all forgotten files go that have something to deliver. Pointers are followed only if there is
a file that is not in sight. -/
def releaseForgotten (env : Env) (m : Machine) : Machine :=
  if m.world.files.any TextFile.isDirty then
    let sight := m.filesInSight env
    if m.dirtyFiles.all sight.contains then m
    else
      let used := m.filesInUse env
      (m.dirtyFiles.filter fun n => !used.contains n).foldl letGo m
  else m

/-- Lets all files go when a run is over. -/
def releaseAll (m : Machine) : Machine := (List.range m.world.files.size).foldl letGo m

end Machine

namespace Run

/-- Lets forgotten files go, with some more values at hand. -/
def releaseForgotten (env : Env) (vs : List Value) : Run Unit :=
  holding vs fun m => .ok () (m.releaseForgotten env)

end Run

end Pascal
