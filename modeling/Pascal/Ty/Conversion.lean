import Pascal.Ty

/-! # Implicit conversions

A value is converted where one of another type is expected. Numbers only widen, a character becomes a
string, arrays are converted element by element, and everything passes as `any`. -/

namespace Pascal

inductive Conversion where
  | identity
  | widen (source target : Basic)
  | charToString
  /-- Converts every element of an array. -/
  | elements (inner : Conversion)
  | nilToPointer
  | toAny
deriving DecidableEq, Repr

namespace Conversion

/-- What a conversion counts for in the choice between routines; an exact match counts nothing. -/
def cost : Conversion → Nat
  | identity => 0
  | widen source target =>
    match source.rank?, target.rank? with
    | some a, some b => b - a
    | _, _ => 1
  | charToString => 2
  | elements inner => inner.cost
  | nilToPointer => 1
  | toAny => 10

/-- Whether only the type changes and values stay as they are. -/
def isRetype : Conversion → Bool
  | identity | nilToPointer | toAny => true
  | elements inner => inner.isRetype
  | widen _ _ | charToString => false

/-- A number or character as a value of a wider type. -/
def widened (target : Basic) (v : Value) : Except Fault Value :=
  match target, v with
  | .integer, .char c => .ok (.integer (Int32.ofNat c.toNat))
  | .long, v => do return .long (Int64.ofInt (← v.asOrdinal))
  | .double, .char c => .ok (.double (Float.ofNat c.toNat))
  | .double, v => do return .double (← v.asReal)
  | _, v => .ok v

def apply : Conversion → Value → Except Fault Value
  | identity, v | nilToPointer, v | toAny, v => .ok v
  | widen _ target, v => widened target v
  | charToString, v => do return .string (← v.asChar).toString
  | elements inner, v =>
    match v with
    | .array lower items => do return .array lower (← items.mapM inner.apply)
    | v => .error (v.mismatch "array")

def ofBasic? (source target : Basic) : Option Conversion :=
  if source = target then some identity
  else if source = .char ∧ target = .string then some charToString
  else match source.rank?, target.rank? with
    | some a, some b => if a < b then some (widen source target) else none
    | _, _ => none

/-- The conversion of values of one type to another, if there is one. -/
def between? : Ty → Ty → Option Conversion
  | source, .any => some (if source.isAny then identity else toAny)
  | .basic a, .basic b => ofBasic? a b
  | .array e r, .array e' r' =>
    if r.fits r' then
      match between? e e' with
      | none => none
      | some identity | some toAny => some identity
      | some inner => some (elements inner)
    else none
  | .pointer t, .pointer t' => if t.agrees t' then some identity else none
  | .nil, .pointer _ | .nil, .nil => some nilToPointer
  | .varargs e, .varargs e' => between? e e'
  | .text, .text => some identity
  | _, _ => none

end Conversion

end Pascal
