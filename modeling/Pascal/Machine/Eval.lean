import Pascal.Machine.Forgotten
import Pascal.Typing

/-! # Evaluation of expressions

Operands are evaluated from left to right, an index before what it is an index of. How routines of the
program are called is left to a parameter, so that evaluation follows the tree. -/

namespace Pascal

/-- An argument as it is passed. -/
inductive Passed where
  | value (v : Value)
  | reference (r : Ref)

namespace Passed

/-- The value that stands for an argument where there are only values. -/
def toValue : Passed → Value
  | value v => v
  | reference r => .pointer (some r)

end Passed

/-- How a routine of the program is called from code with a chain of frames. -/
abbrev Caller := Chain → Nat → List Passed → Run (Option Value)

/-- Calls a routine. -/
def Env.call (env : Env) (caller : Caller) (chain : Chain) (callee : Callee) (args : List Passed) :
    Run (Option Value) :=
  match callee with
  | .user id => caller chain id args
  | .native id =>
    match env.program.arena.natives[id]? with
    | some routine => Run.ofHost routine.name (routine.run (args.map Passed.toValue))
    | none => Run.fail (.internal "routine has no body")

/-- The value of `and` or `or` where the left operand decides it. -/
def BinaryOp.decides (op : BinaryOp) (left : Bool) : Bool :=
  match op with
  | .and => !left
  | .or => left
  | _ => false

/-- Whether an operator looks at its right operand only where it has to. -/
def BinaryOp.isLazy (op : BinaryOp) (left : Ty) : Bool :=
  left.isBoolean && (op == .and || op == .or)

mutual

def Expr.eval (env : Env) (caller : Caller) (chain : Chain) : Expr → Run Value
  | .literal v _ => return v
  | .place p _ => do Run.get (← p.resolve env caller chain)
  | .array lower items _ => do return .array lower (← evalItems env caller chain items)
  | .range _ _ _ => Run.fail (.internal "range outside of an array constructor")
  | .address p _ => do return .pointer (some (← p.resolve env caller chain))
  | .unary op e _ => do
    let v ← e.eval env caller chain
    Run.liftFault (Value.unary op v)
  | .binary op l r _ => do
    let left ← l.eval env caller chain
    if op.isLazy l.ty then
      if op.decides (← Run.liftFault left.asBool) then return left
      let right ← r.eval env caller chain
      return .boolean (← Run.liftFault right.asBool)
    else
      let right ← Run.holding [left] (r.eval env caller chain)
      Run.liftFault (Value.binary op left right)
  | .convert c e _ => do
    let v ← e.eval env caller chain
    Run.liftFault (c.apply v)
  | .format e w none _ => do
    let v ← e.eval env caller chain
    let width ← Run.holding [v] (w.eval env caller chain)
    Run.format v width none
  | .format e w (some p) _ => do
    let v ← e.eval env caller chain
    let width ← Run.holding [v] (w.eval env caller chain)
    let precision ← Run.holding [v] (p.eval env caller chain)
    Run.format v width (some precision)
  | .call callee _ args _ => do
    let passed ← evalArgs env caller chain args
    match ← env.call caller chain callee passed with
    | some v => return v
    | none => Run.fail (.internal "routine returned no value")

/-- The storage that a place stands for. -/
def Place.resolve (env : Env) (caller : Caller) (chain : Chain) : Place → Run Ref
  | .var v => Run.liftFault (env.variableRef chain v)
  | .element base index => do
    let i ← Run.liftFault (← index.eval env caller chain).asOrdinal
    return (← base.resolve env caller chain).element i
  | .charAt base index => do
    let i ← Run.liftFault (← index.eval env caller chain).asOrdinal
    return (← base.resolve env caller chain).charAt i
  | .deref pointer => do
    match ← pointer.eval env caller chain with
    | .pointer (some r) => return r
    | .pointer none => Run.fail .nilDereference
    | v => Run.fail (v.mismatch "pointer")

/-- The values of the items of an array constructor. A range gives all its ordinals. -/
def evalItems (env : Env) (caller : Caller) (chain : Chain) : List Expr → Run (List Value)
  | [] => return []
  | .range low high _ :: items => do
    let first ← low.eval env caller chain
    let last ← high.eval env caller chain
    let vs ← Run.liftFault (Value.expandRange first last)
    return vs ++ (← evalItems env caller chain items)
  | item :: items => do
    let v ← item.eval env caller chain
    return v :: (← Run.holding [v] (evalItems env caller chain items))

def Arg.pass (env : Env) (caller : Caller) (chain : Chain) : Arg → Run Passed
  | .value e => do return .value (← e.eval env caller chain)
  | .reference p => do return .reference (← p.resolve env caller chain)

def evalArgs (env : Env) (caller : Caller) (chain : Chain) : List Arg → Run (List Passed)
  | [] => return []
  | a :: as => do
    let passed ← a.pass env caller chain
    return passed :: (← Run.holding [passed.toValue] (evalArgs env caller chain as))

end

end Pascal
