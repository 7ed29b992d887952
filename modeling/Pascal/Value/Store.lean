import Pascal.Value

/-! # Storage

A store is a row of cells. A cell that is being changed is lent out: until the change is done it can
be neither read nor written. -/

namespace Pascal

structure Store where
  cells : Array (Option Value) := #[]
deriving Inhabited

namespace Store

def size (s : Store) : Nat := s.cells.size

/-- A new cell that holds `v`. -/
def alloc (s : Store) (v : Value) : Ref × Store := (⟨s.cells.size, []⟩, ⟨s.cells.push (some v)⟩)

/-- The value at a reference. -/
def get (s : Store) (r : Ref) : Except Fault Value :=
  match s.cells[r.cell]? with
  | some (some root) => root.follow r.path
  | _ => .error (.internal "storage is being written")

/-- The value of a whole cell with the value at a reference replaced by what `f` makes of it. -/
def revised (s : Store) (r : Ref) (f : Value → Except Fault Value) : Except Fault Value :=
  match s.cells[r.cell]? with
  | some (some root) => root.revise f r.path
  | _ => .error (.internal "storage is already borrowed")

/-- Gives a cell a new value. -/
def put (s : Store) (cell : Nat) (v : Value) : Store := ⟨s.cells.setIfInBounds cell (some v)⟩

/-- The store while a cell is lent out. -/
def lend (s : Store) (cell : Nat) : Store := ⟨s.cells.setIfInBounds cell none⟩

/-- Replaces the value at a reference by what `f` makes of it. Meanwhile `f` sees the store with the
cell lent out. -/
def revise (s : Store) (r : Ref) (f : Store → Value → Except Fault Value) : Except Fault Store := do
  return s.put r.cell (← s.revised r (f (s.lend r.cell)))

/-- Writes the value at a reference. -/
def set (s : Store) (r : Ref) (v : Value) : Except Fault Store := do
  return s.put r.cell (← s.revised r fun _ => .ok v)

/-- The text of a value. Pointers are followed at most `depth` times in a row. -/
def showWithin (s : Store) : Nat → Value → String
  | 0, v => v.showWith (fun _ => "^?")
  | depth + 1, v => v.showWith fun r =>
    match s.get r with
    | .ok target => "^" ++ s.showWithin depth target
    | .error _ => "^?"

/-- The text of a value. Where no cell leads back to itself, a chain of pointers passes each cell at
most once, so that it is followed to its end. -/
def render (s : Store) (v : Value) : String := s.showWithin (s.size + 1) v

end Store

end Pascal
