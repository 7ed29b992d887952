import Pascal.Value
import Pascal.Decimal.Fixed

/-! # Operators on values

Operands have been converted to a common kind before. Integers are computed exactly and a result that
does not fit its width is a fault. -/

namespace Pascal

inductive UnaryOp where
  | not | negate
deriving DecidableEq, Repr

inductive BinaryOp where
  | add | subtract | multiply | divide | intDivide | modulo | and | or | xor | shl | shr
  | equal | notEqual | less | lessEqual | greater | greaterEqual | member
deriving DecidableEq, Repr

def UnaryOp.symbol : UnaryOp → String
  | not => "not" | negate => "-"

namespace BinaryOp

def symbol : BinaryOp → String
  | add => "+" | subtract => "-" | multiply => "*" | divide => "/" | intDivide => "div"
  | modulo => "mod" | and => "and" | or => "or" | xor => "xor" | shl => "shl" | shr => "shr"
  | equal => "=" | notEqual => "<>" | less => "<" | lessEqual => "<=" | greater => ">"
  | greaterEqual => ">=" | member => "in"

def all : List BinaryOp :=
  [add, subtract, multiply, divide, intDivide, modulo, and, or, xor, shl, shr,
    equal, notEqual, less, lessEqual, greater, greaterEqual, member]

def isComparison : BinaryOp → Bool
  | equal | notEqual | less | lessEqual | greater | greaterEqual => true
  | _ => false

end BinaryOp

namespace Value

def fitting (operation : String) (v : Option Value) : Except Fault Value :=
  match v with
  | some v => .ok v
  | none => .error (.overflow operation)

def unary (op : UnaryOp) (v : Value) : Except Fault Value :=
  match op, v with
  | .not, boolean b => .ok (boolean !b)
  | .not, integer n => .ok (integer (~~~n))
  | .not, long n => .ok (long (~~~n))
  | .negate, integer n => fitting "negation" (integer? (-n.toInt))
  | .negate, long n => fitting "negation" (long? (-n.toInt))
  | .negate, double x => .ok (double (-x))
  | _, v => .error (v.mismatch "operand")

/-- Whether a result fits into 64 bits. -/
def fitsLong (n : Int) : Bool := -0x8000000000000000 ≤ n && n < 0x8000000000000000

/-- Arithmetic of 64-bit integers. Division goes toward zero, a remainder has the sign of the dividend
and is only given where the quotient fits as well. -/
def integerArithmetic (op : BinaryOp) (a b : Int) : Except Fault Int :=
  let checked (fits : Bool) (n : Int) : Except Fault Int :=
    if fits then .ok n else .error (.overflow op.symbol)
  match op with
  | .add => checked (fitsLong (a + b)) (a + b)
  | .subtract => checked (fitsLong (a - b)) (a - b)
  | .multiply => checked (fitsLong (a * b)) (a * b)
  | .intDivide =>
    if b = 0 then .error .divisionByZero else checked (fitsLong (a.tdiv b)) (a.tdiv b)
  | .modulo =>
    if b = 0 then .error .divisionByZero else checked (fitsLong (a.tdiv b)) (a.tmod b)
  | _ => .error (.internal "integer operator")

def arithmetic (op : BinaryOp) (left right : Value) : Except Fault Value :=
  match left, right with
  | integer a, integer b => do
    fitting op.symbol (integer? (← integerArithmetic op a.toInt b.toInt))
  | long a, long b => do
    fitting op.symbol (long? (← integerArithmetic op a.toInt b.toInt))
  | double a, double b =>
    match op with
    | .add => .ok (double (a + b))
    | .subtract => .ok (double (a - b))
    | .multiply => .ok (double (a * b))
    | .divide => if b == 0.0 then .error .divisionByZero else .ok (double (a / b))
    | _ => .error (left.mismatch "integer")
  | string a, string b =>
    match op with
    | .add => .ok (string (a ++ b))
    | _ => .error (left.mismatch "number")
  | _, _ => .error (left.mismatch "number")

/-- `and`, `or` and, for any other operator, `xor`: of booleans, or of integers bit by bit. -/
def logical (op : BinaryOp) (left right : Value) : Except Fault Value :=
  match left, right with
  | boolean a, boolean b =>
    .ok (boolean (match op with | .and => a && b | .or => a || b | _ => a != b))
  | integer a, integer b =>
    .ok (integer (match op with | .and => a &&& b | .or => a ||| b | _ => a ^^^ b))
  | long a, long b =>
    .ok (long (match op with | .and => a &&& b | .or => a ||| b | _ => a ^^^ b))
  | _, _ => .error (left.mismatch "boolean or integer")

/-- Shifts move the bits of an integer and fill with zeros. An amount that is negative or not below
the width moves all of them out. -/
def shift (op : BinaryOp) (left right : Value) : Except Fault Value := do
  let amount ← right.asOrdinal
  let moves (width : Int) : Bool := 0 ≤ amount && amount < width
  match left with
  | integer n =>
    let bits := n.toUInt32
    let by_ := UInt32.ofNat amount.toNat
    let shifted := if op = .shl then bits <<< by_ else bits >>> by_
    return integer (if moves 32 then shifted.toInt32 else 0)
  | long n =>
    let bits := n.toUInt64
    let by_ := UInt64.ofNat amount.toNat
    let shifted := if op = .shl then bits <<< by_ else bits >>> by_
    return long (if moves 64 then shifted.toInt64 else 0)
  | v => .error (v.mismatch "integer")

/-- Equality, where a character equals the string of that one character. -/
def equals (left right : Value) : Bool :=
  match left, right with
  | char a, string b => b.toList == [a]
  | string a, char b => a.toList == [b]
  | _, _ => left.same right

def order {α : Type} [LT α] [DecidableRel (α := α) (· < ·)] (a b : α) : Option Ordering :=
  if a < b then some .lt else if b < a then some .gt else some .eq

/-- How two values of one kind are ordered. Reals that are not numbers have no order. -/
def compare (left right : Value) : Except Fault (Option Ordering) :=
  match left, right with
  | integer a, integer b => .ok (order a.toInt b.toInt)
  | long a, long b => .ok (order a.toInt b.toInt)
  | double a, double b =>
    .ok (if a < b then some .lt else if b < a then some .gt else if a == b then some .eq else none)
  | char a, char b => .ok (order a b)
  | string a, string b => .ok (order a b)
  | boolean a, boolean b => .ok (order a.toNat b.toNat)
  | _, _ => .error (left.mismatch "comparable value")

def binary (op : BinaryOp) (left right : Value) : Except Fault Value :=
  match op with
  | .equal => .ok (boolean (left.equals right))
  | .notEqual => .ok (boolean !(left.equals right))
  | .less => do return boolean ((← left.compare right) == some .lt)
  | .lessEqual => do
    let o ← left.compare right
    return boolean (o == some .lt || o == some .eq)
  | .greater => do return boolean ((← left.compare right) == some .gt)
  | .greaterEqual => do
    let o ← left.compare right
    return boolean (o == some .gt || o == some .eq)
  | .member =>
    match right with
    | array _ items => .ok (boolean (items.any left.equals))
    | v => .error (v.mismatch "set")
  | .and | .or | .xor => left.logical op right
  | .shl | .shr => left.shift op right
  | .add | .subtract | .multiply | .divide | .intDivide | .modulo => left.arithmetic op right

/-- The `count` values from number `n` on, of the ordinal kind of `v`, behind those in `before`, which
stand in reverse. -/
def ordinalsFrom (v : Value) (n : Int) (before : List Value) : Nat → Except Fault (List Value)
  | 0 => .ok before.reverse
  | count + 1 => do ordinalsFrom v (n + 1) ((← v.withOrdinal n) :: before) count

/-- All ordinals from `low` to `high`, both included, of the kind of `low`. -/
def expandRange (low high : Value) : Except Fault (List Value) := do
  let first ← low.asOrdinal
  let last ← high.asOrdinal
  low.ordinalsFrom first [] (last - first + 1).toNat

def padLeft (width : Nat) (s : String) : String :=
  String.ofList (List.replicate (width - s.length) ' ') ++ s

/-- A column or a number of decimal places to format with. A negative one counts as none; where it takes
more than 16 bits the host breaks off. -/
def formatArgument (n : Int) : Except Fault Nat :=
  if 0xFFFF < n then .error (.crash "Formatting argument out of range") else .ok n.toNat

/-- A value as text that ends in the given column. A precision sets the decimal places of a real and
means nothing to other values. -/
def format (show_ : Value → String) (v width : Value) (precision : Option Value) :
    Except Fault Value := do
  let columns ← width.asOrdinal
  let text ← match v, precision with
    | double x, some p => do pure (Decimal.fixed x (← formatArgument (← p.asOrdinal)))
    | v, _ => pure (show_ v)
  return string (padLeft (← formatArgument columns) text)

end Value

end Pascal
