import Pascal.Ty.Conversion

/-! # Signatures and the choice between routines

A call may have several routines to choose from. Each argument is bound to its parameter at the cost of
its conversion, and the one routine with the least total cost is chosen. -/

namespace Pascal

inductive ParamMode where
  | value | const | var
deriving DecidableEq, Repr

structure Parameter where
  name : String
  ty : Ty
  mode : ParamMode := .value
deriving DecidableEq, Repr

structure Signature where
  params : List Parameter
  result : Option Ty := none
deriving DecidableEq, Repr

/-- What a call knows of an argument: its type, and whether it can be assigned to. -/
structure Shape where
  ty : Ty
  assignable : Bool
deriving DecidableEq, Repr

inductive Binding where
  /-- The argument is converted to a type. -/
  | value (ty : Ty)
  | reference
deriving DecidableEq, Repr

/-- How all arguments of a call are bound, and what that costs. -/
structure Match where
  cost : Nat
  bindings : List Binding
deriving DecidableEq, Repr

inductive ChoiceError where
  | noneApplicable | ambiguous
deriving DecidableEq, Repr

namespace Signature

/-- The parameters before the one that takes any number of arguments, and that one's element type and
mode. -/
def split (s : Signature) : List Parameter × Option (Ty × ParamMode) :=
  match s.params.getLast? with
  | some ⟨_, .varargs element, mode⟩ => (s.params.dropLast, some (element, mode))
  | _ => (s.params, none)

/-- Same types and modes of parameters. Names and results do not tell routines apart. -/
def sameParameters (s t : Signature) : Bool :=
  s.params.length == t.params.length &&
    (s.params.zip t.params).all fun (a, b) => a.mode == b.mode && a.ty.agrees b.ty

/-- Binds one argument, if that is possible, and gives the cost. A reference needs something that can
be assigned to and has the type of the parameter; `any` takes all of them. -/
def bind (ty : Ty) (mode : ParamMode) (arg : Shape) : Option (Nat × Binding) :=
  match mode with
  | .var =>
    if !arg.assignable then none
    else if ty.isAny && !arg.ty.isAny then some (Conversion.toAny.cost, .reference)
    else if arg.ty.fits ty then some (0, .reference)
    else none
  | .value | .const => (Conversion.between? arg.ty ty).map fun c => (c.cost, .value ty)

/-- Binds the first arguments to the parameters, one by one, and the others to the further parameter.
Too few arguments cannot be bound, nor too many without a further parameter. -/
def bindAll (further : Option (Ty × ParamMode)) : List Parameter → List Shape → Option Match
  | [], [] => some ⟨0, []⟩
  | [], arg :: args =>
    match further with
    | none => none
    | some (element, mode) => do
      let (cost, binding) ← bind element mode arg
      let m ← bindAll further [] args
      return ⟨cost + m.cost, binding :: m.bindings⟩
  | _ :: _, [] => none
  | p :: params, arg :: args => do
    let (cost, binding) ← bind p.ty p.mode arg
    let m ← bindAll further params args
    return ⟨cost + m.cost, binding :: m.bindings⟩

/-- How the arguments of a call are bound. A routine that takes any number of arguments costs one more,
so that an equal match without that is preferred. -/
def match? (s : Signature) (args : List Shape) : Option Match :=
  let (fixed, further) := s.split
  (bindAll further fixed args).map fun m =>
    if further.isSome then ⟨m.cost + 1, m.bindings⟩ else m

/-- The best match so far, and whether another one costs as much. -/
def better {α : Type} (best : Option (α × Match × Bool)) (found : α × Match) :
    Option (α × Match × Bool) :=
  match best with
  | none => some (found.1, found.2, false)
  | some (a, m, tied) =>
    if m.cost < found.2.cost then some (a, m, tied)
    else if m.cost = found.2.cost then some (a, m, true)
    else some (found.1, found.2, false)

/-- The one candidate with the least cost. -/
def choose {α : Type} (candidates : List (α × Signature)) (args : List Shape) :
    Except ChoiceError (α × Match) :=
  let found := candidates.filterMap fun (a, s) => (s.match? args).map (a, ·)
  match found.foldl better none with
  | none => .error .noneApplicable
  | some (_, _, true) => .error .ambiguous
  | some (a, m, false) => .ok (a, m)

end Signature

end Pascal
