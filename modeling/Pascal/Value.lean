import Pascal.Fault
import Pascal.Decimal.Output

/-! # Values

The values that programs compute with. Arrays are values and are copied as wholes; pointers and text
files refer to storage that is kept elsewhere. -/

namespace Pascal

/-- One step from a stored value to a part of it. -/
inductive Step where
  /-- An array element by its declared index. -/
  | element (index : Int)
  /-- A character of a string, counted from one. -/
  | charAt (index : Int)
deriving DecidableEq, Repr

/-- Where a value is stored: a cell, and a path into the arrays and strings it holds. -/
structure Ref where
  cell : Nat
  path : List Step
deriving DecidableEq, Repr

namespace Ref

def element (r : Ref) (index : Int) : Ref := ⟨r.cell, r.path ++ [.element index]⟩

def charAt (r : Ref) (index : Int) : Ref := ⟨r.cell, r.path ++ [.charAt index]⟩

end Ref

inductive Value where
  | boolean (b : Bool)
  | integer (n : Int32)
  | long (n : Int64)
  | double (x : Float)
  | char (c : Char)
  | string (s : String)
  | array (lower : Int64) (items : List Value)
  | pointer (target : Option Ref)
  /-- A text file, by its number. -/
  | text (file : Nat)
deriving Repr, Inhabited

namespace Value

def typeName : Value → String
  | boolean _ => "boolean"
  | integer _ => "integer"
  | long _ => "int64"
  | double _ => "double"
  | char _ => "char"
  | string _ => "string"
  | array _ _ => "array"
  | pointer _ => "pointer"
  | text _ => "text"

/-- The fault of a value that is not of the kind that is needed. -/
def mismatch (v : Value) (expected : String) : Fault := .invalidValue expected v.typeName

def asBool : Value → Except Fault Bool
  | boolean b => .ok b
  | v => .error (v.mismatch "boolean")

/-- The number of an integer, character or boolean in the order of its kind. -/
def asOrdinal : Value → Except Fault Int
  | integer n => .ok n.toInt
  | long n => .ok n.toInt
  | char c => .ok c.toNat
  | boolean b => .ok (if b then 1 else 0)
  | v => .error (v.mismatch "ordinal")

def asReal : Value → Except Fault Float
  | double x => .ok x
  | integer n => .ok (Float.ofInt n.toInt)
  | long n => .ok (Float.ofInt n.toInt)
  | v => .error (v.mismatch "real")

def asString : Value → Except Fault String
  | string s => .ok s
  | v => .error (v.mismatch "string")

def asChar : Value → Except Fault Char
  | char c => .ok c
  | v => .error (v.mismatch "char")

def asText : Value → Except Fault Nat
  | text file => .ok file
  | v => .error (v.mismatch "native object")

/-- The 32-bit integer with this value. -/
def integer? (n : Int) : Option Value :=
  if -0x80000000 ≤ n ∧ n < 0x80000000 then some (integer (Int32.ofInt n)) else none

/-- The 64-bit integer with this value. -/
def long? (n : Int) : Option Value :=
  if -0x8000000000000000 ≤ n ∧ n < 0x8000000000000000 then some (long (Int64.ofInt n)) else none

/-- The character with this code; surrogates and codes from U+110000 on are none. -/
def char? (n : Int) : Option Value :=
  if (0 ≤ n ∧ n < 0xD800) ∨ (0xDFFF < n ∧ n < 0x110000) then some (char (Char.ofNat n.toNat))
  else none

def orOverflow (v : Option Value) : Except Fault Value :=
  match v with
  | some v => .ok v
  | none => .error (.overflow "ordinal")

/-- The value of the same ordinal kind that has a given number. -/
def withOrdinal (v : Value) (n : Int) : Except Fault Value :=
  match v with
  | integer _ => orOverflow (integer? n)
  | long _ => orOverflow (long? n)
  | char _ => orOverflow (char? n)
  | boolean _ => orOverflow (if n = 0 then some (boolean false) else if n = 1 then some (boolean true) else none)
  | v => .error (v.mismatch "ordinal")

mutual

/-- Equality as programs see it: reals by value, arrays item by item with their lower bounds, pointers
and files by what they refer to. -/
def same : Value → Value → Bool
  | boolean a, boolean b => a == b
  | integer a, integer b => a == b
  | long a, long b => a == b
  | double a, double b => a == b
  | char a, char b => a == b
  | string a, string b => a == b
  | array lower items, array lower' items' => lower == lower' && sameItems items items'
  | pointer a, pointer b => a == b
  | text a, text b => a == b
  | _, _ => false

def sameItems : List Value → List Value → Bool
  | [], [] => true
  | a :: as, b :: bs => same a b && sameItems as bs
  | _, _ => false

end

def joined : List String → String
  | [] => ""
  | [s] => s
  | s :: ss => s ++ ", " ++ joined ss

mutual

/-- The text of a value, where `pointee` gives the text of what a pointer refers to. -/
def showWith (pointee : Ref → String) : Value → String
  | boolean b => if b then "TRUE" else "FALSE"
  | integer n => String.ofList (Decimal.integer n.toInt)
  | long n => String.ofList (Decimal.integer n.toInt)
  | double x => Decimal.real x
  | char c => c.toString
  | string s => s
  | array _ items => "[" ++ joined (showItems pointee items) ++ "]"
  | pointer none => "nil"
  | pointer (some target) => pointee target
  | text _ => "<text>"

def showItems (pointee : Ref → String) : List Value → List String
  | [] => []
  | v :: vs => showWith pointee v :: showItems pointee vs

end

/-- The offset of an index in a sequence that starts at `lower`. The last index and the offset are
64-bit integers that go round where they do not fit. -/
def offset (lower : Int64) (length : Nat) (index : Int) : Except Fault Nat :=
  let upper := lower + Int64.ofNat length - 1
  if index < lower.toInt ∨ upper.toInt < index then
    .error (.indexOutOfBounds index lower.toInt upper.toInt)
  else
    let distance := Int64.ofInt index - lower
    if distance < 0 then .error (.internal "negative offset") else .ok distance.toInt.toNat

/-- The item at an offset. The host breaks off where there is none. -/
def itemAt (items : List Value) (i : Nat) : Except Fault Value :=
  match items[i]? with
  | some item => .ok item
  | none => .error (.crash "index out of bounds")

/-- The element of an array at its declared index. -/
def elementAt (v : Value) (index : Int) : Except Fault Value :=
  match v with
  | array lower items => do itemAt items (← offset lower items.length index)
  | v => .error (v.mismatch "array")

/-- The character of a string at an index counted from one. -/
def charOf (v : Value) (index : Int) : Except Fault Char := do
  let cs := (← v.asString).toList
  let i ← offset 1 cs.length index
  match cs[i]? with
  | some c => .ok c
  | none => .error (.internal "character index")

/-- The part of a value at the end of a path. Behind a character the path is not followed. -/
def follow (v : Value) : List Step → Except Fault Value
  | [] => .ok v
  | .element index :: path => do (← v.elementAt index).follow path
  | .charAt index :: _ => do return char (← v.charOf index)

/-- The value with the part at the end of a path replaced by what `f` makes of it. -/
def revise (f : Value → Except Fault Value) (v : Value) : List Step → Except Fault Value
  | [] => f v
  | .element index :: path =>
    match v with
    | array lower items => do
      let i ← offset lower items.length index
      let item ← itemAt items i
      return array lower (items.set i (← item.revise f path))
    | v => .error (v.mismatch "array")
  | .charAt index :: path =>
    match path with
    | [] => do
      let old ← v.charOf index
      let new ← (← f (char old)).asChar
      let cs := (← v.asString).toList
      let i ← offset 1 cs.length index
      return string (String.ofList (cs.set i new))
    | _ :: _ => .error (.internal "character has no elements")

end Value

end Pascal
