import Pascal.Scope.Lookup
import Pascal.Typing

/-! # The routine that a call means

The routines of a name are tried level by level from the scope of the call outwards. The nearest level
where one accepts the arguments decides. -/

namespace Pascal

namespace Expr

/-- What the choice between routines sees of an argument. -/
def shape (e : Expr) : Shape := ⟨e.ty, e.place?.isSome⟩

/-- Binds an argument the way its parameter asks for. -/
def bound (name : String) (e : Expr) : Binding → Checked Arg
  | .value ty => do return .value (← e.coerce ty)
  | .reference =>
    match e.place? with
    | some p => .ok (.reference p)
    | none => .error (.scope (.notAssignable name e.pos))

/-- Binds arguments one by one. -/
def boundAll (name : String) : List Expr → List Binding → Checked (List Arg)
  | e :: es, b :: bs => do
    let a ← e.bound name b
    return a :: (← boundAll name es bs)
  | _, _ => .ok []

end Expr

namespace Arena

def typeNames (shapes : List Shape) : String :=
  ", ".intercalate (shapes.map fun s => s.ty.name)

/-- The routine that the nearest level with an applicable one offers. -/
def chooseCallee (a : Arena) (name : String) (shapes : List Shape) (pos : Position) :
    List (List Callee) → Checked (Callee × Match)
  | [] => .error (.scope (.noApplicableOverload name (typeNames shapes) pos))
  | level :: levels =>
    match Signature.choose (level.map fun c => (c, a.signature c)) shapes with
    | .ok found => .ok found
    | .error .ambiguous => .error (.scope (.ambiguousOverload name (typeNames shapes) pos))
    | .error .noneApplicable => a.chooseCallee name shapes pos levels

/-- The routine that a call of `name` in a scope means, with its arguments bound and its result. -/
def resolveCall (a : Arena) (scope : Nat) (name : String) (args : List Expr) (pos : Position) :
    Checked (Callee × List Arg × Option Ty) := do
  let (callee, m) ←
    a.chooseCallee name (args.map Expr.shape) pos (a.candidateLevels scope name)
  return (callee, ← Expr.boundAll name args m.bindings, (a.signature callee).result)

end Arena

end Pascal
