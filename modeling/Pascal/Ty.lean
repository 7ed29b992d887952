import Pascal.Ty.Subrange
import Pascal.Value

/-! # Types -/

namespace Pascal

inductive Basic where
  | boolean | char | integer | long | double | string
deriving DecidableEq, Repr

namespace Basic

def name : Basic → String
  | boolean => "boolean" | char => "char" | integer => "integer" | long => "int64"
  | double => "double" | string => "string"

def all : List Basic := [boolean, char, integer, long, double, string]

/-- The place of a type on the way from `char` over `integer` and `int64` to `double`, along which
values widen. -/
def rank? : Basic → Option Nat
  | char => some 0 | integer => some 1 | long => some 2 | double => some 3
  | boolean | string => none

/-- The bytes that a value of the type counts for. -/
def byteSize : Basic → Nat
  | boolean => 1 | char => 2 | integer => 4 | long | double => 8 | string => 256

def initial : Basic → Value
  | boolean => .boolean false
  | char => .char (Char.ofNat 0)
  | integer => .integer 0
  | long => .long 0
  | double => .double 0.0
  | string => .string ""

end Basic

inductive Ty where
  | basic (b : Basic)
  | array (element : Ty) (bounds : Subrange)
  | pointer (target : Ty)
  /-- The last parameter of a routine that takes any number of further arguments. -/
  | varargs (element : Ty)
  /-- Values of every type. -/
  | any
  /-- Text files. -/
  | text
  /-- The type of `nil`. -/
  | nil
deriving DecidableEq, Repr, Inhabited

namespace Ty

abbrev boolean : Ty := basic .boolean
abbrev char : Ty := basic .char
abbrev integer : Ty := basic .integer
abbrev long : Ty := basic .long
abbrev double : Ty := basic .double
abbrev string : Ty := basic .string

/-- An array whose bounds are not declared. -/
def openArray (element : Ty) : Ty := array element .unbounded

def name : Ty → String
  | basic b => b.name
  | array element bounds =>
    if bounds.isOpen then "array of " ++ element.name
    else "array[" ++ bounds.text ++ "] of " ++ element.name
  | pointer target => "^" ++ target.name
  | varargs element => "varargs of " ++ element.name
  | any => "any"
  | text => "text"
  | nil => "nil"

/-- Types agree if they are built alike and the ranges of their arrays agree. -/
def agrees : Ty → Ty → Bool
  | basic a, basic b => a == b
  | array e r, array e' r' => e.agrees e' && r.agrees r'
  | pointer t, pointer t' => t.agrees t'
  | varargs e, varargs e' => e.agrees e'
  | any, any => true
  | text, text => true
  | nil, nil => true
  | _, _ => false

/-- Whether storage of type `t` can stand for a variable of type `target`: the types agree, but an
open array only stands for an open array. -/
def fits : Ty → Ty → Bool
  | array e r, array e' r' => r.fits r' && e.fits e'
  | t, target => t.agrees target

def basic? : Ty → Option Basic
  | basic b => some b
  | _ => none

def isOrdinal : Ty → Bool
  | basic .boolean | basic .char | basic .integer | basic .long => true
  | _ => false

def isIntegral : Ty → Bool
  | basic .integer | basic .long => true
  | _ => false

def isNumeric : Ty → Bool
  | basic .integer | basic .long | basic .double => true
  | _ => false

def isAny : Ty → Bool
  | any => true
  | _ => false

/-- Whether a value of the type holds a text file from the start. -/
def holdsText : Ty → Bool
  | array element _ => element.holdsText
  | text => true
  | _ => false

/-- The value of a variable that has not been assigned. All text files in it are the one with the
given number. -/
def initial (file : Nat) : Ty → Value
  | basic b => b.initial
  | array element bounds => .array bounds.lower (List.replicate bounds.length (element.initial file))
  | pointer _ | nil | any => .pointer none
  | varargs _ => .array 0 []
  | text => .text file

end Ty

end Pascal
