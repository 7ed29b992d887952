import Pascal.Decimal.Shortest

/-! # Why a run stops -/

namespace Pascal

/-- What can go wrong while a program runs. -/
inductive Fault where
  | divisionByZero
  | overflow (operation : String)
  | indexOutOfBounds (index lower upper : Int)
  | nilDereference
  | fileNotOpen (name : String)
  | fileNotFound (name : String)
  | inputExhausted
  | invalidInput (input expected : String)
  | stackOverflow (depth : Nat)
  | cancelled
  | invalidValue (expected found : String)
  | io (message : String)
  /-- A rule that every compiled program keeps was broken. -/
  | internal (what : String)
  /-- A library routine failed for a reason of its own. -/
  | routine (name cause : String)
  /-- The host broke the program off. No fault of the program is reported then. -/
  | crash (what : String)
deriving DecidableEq, Repr

namespace Fault

private def number (n : Int) : String := String.ofList (Decimal.integer n)

def message : Fault → String
  | divisionByZero => "Division by zero"
  | overflow operation => "Arithmetic overflow in " ++ operation
  | indexOutOfBounds index lower upper =>
    "Index " ++ number index ++ " out of bounds " ++ number lower ++ ".." ++ number upper
  | nilDereference => "Dereference of nil pointer"
  | fileNotOpen name => "File '" ++ name ++ "' is not open"
  | fileNotFound name => "File '" ++ name ++ "' not found"
  | inputExhausted => "Read past end of input"
  | invalidInput input expected => "Invalid input '" ++ input ++ "': expected " ++ expected
  | stackOverflow depth => "Stack overflow: call depth exceeded " ++ toString depth
  | cancelled => "Program terminated by user"
  | invalidValue expected found => "Expected " ++ expected ++ " value, got " ++ found
  | io message => "I/O error: " ++ message
  | internal what => "Runtime invariant violated: " ++ what
  | routine name cause => "Error in native routine '" ++ name ++ "': " ++ cause
  | crash what => what

/-- Whether the host broke off. -/
def isCrash : Fault → Bool
  | crash _ => true
  | _ => false

end Fault

end Pascal
