import Pascal.Library
import Pascal.Value.Operator

/-! # Trigonometry, powers, and the larger and smaller of two numbers -/

namespace Pascal.Library

def real (name : String) (f : Float → Float) : Routine :=
  function name [param "x" .double] .double fun args => do return .double (f (← realArg args 0))

/-- The left argument if it stands in the relation to the right one, and the right one otherwise. -/
def pick (relation : BinaryOp) (args : List Value) : Host Value := do
  let left ← arg args 0
  let right ← arg args 1
  let keep ← Host.liftFault do (← Value.binary relation left right).asBool
  return if keep then left else right

def pickRoutines (name : String) (relation : BinaryOp) : List Routine :=
  [Ty.integer, .long, .double].map fun ty =>
    function name [param "a" ty, param "b" ty] ty (pick relation)

def math : Library where
  name := "math"
  routines :=
    [real "arccos" Float.acos, real "arcsin" Float.asin, real "arctan" Float.atan,
      real "sin" Float.sin, real "cos" Float.cos, real "tan" Float.tan, real "ln" Float.log,
      real "exp" Float.exp,
      function "power" [param "base" .double, param "exponent" .double] .double fun args => do
        let base ← realArg args 0
        let exponent ← realArg args 1
        return .double (base.pow exponent),
      function "floor" [param "x" .double] .integer fun args => do
        wholeResult Decimal.floor (← realArg args 0),
      function "ceil" [param "x" .double] .integer fun args => do
        wholeResult Decimal.ceil (← realArg args 0)] ++
    pickRoutines "max" .greaterEqual ++ pickRoutines "min" .lessEqual

end Pascal.Library
