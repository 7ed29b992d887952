import Pascal.Scope
import Pascal.Tree.Fold

/-! # Programs -/

namespace Pascal

/-- What a unit does before the main program and after it. -/
structure UnitCode where
  name : String
  scope : Nat
  initialization : Option Stmt
  finalization : Option Stmt

structure Program where
  arena : Arena
  /-- The scope of the main program. -/
  main : Nat
  body : Stmt
  /-- The units, each behind those it uses. -/
  units : List UnitCode

namespace Program

/-- The program with all its constant expressions folded. -/
def fold (p : Program) : Program :=
  { p with
    body := p.body.fold
    arena := { p.arena with
      functions := p.arena.functions.map fun f => { f with body := f.body.map Stmt.fold } }
    units := p.units.map fun u =>
      { u with
        initialization := u.initialization.map Stmt.fold
        finalization := u.finalization.map Stmt.fold } }

/-- Whether all constant expressions of a program are folded to the end. -/
def foldEnds (p : Program) : Bool :=
  let ends (s : Option Stmt) : Bool := s.all Stmt.foldEnds
  p.body.foldEnds && (p.arena.functions.all fun f => ends f.body) &&
    p.units.all fun u => ends u.initialization && ends u.finalization

/-- The folded program, unless folding breaks off. -/
def fold? (p : Program) : Option Program := if p.foldEnds then some p.fold else none

end Program

end Pascal
