import Pascal.Group
import Pascal.Scope

/-! # Why a source text is rejected

The first thing wrong in the order of the text is reported, whatever its kind. -/

namespace Pascal

/-- What breaks a rule of types. -/
inductive TypeError where
  | unconvertible (source target : Ty) (pos : Position)
  | nonIntegerIndex (found : Ty) (pos : Position)
  | subrangeBound (lower upper : Int) (pos : Position)
  | arraySizeMismatch (expected found : Nat) (pos : Position)
  | invalidOperands (operator : String) (left right : Ty) (pos : Position)
  | invalidOperand (operator : String) (operand : Ty) (pos : Position)
  | notConstant (pos : Position)
  | notIndexable (found : Ty) (pos : Position)
  | notAPointer (found : Ty) (pos : Position)
  | notOrdinal (found : Ty) (pos : Position)
  /-- A routine without a result is called for one. -/
  | noValue (name : String) (pos : Position)
deriving DecidableEq, Repr

namespace TypeError

def pos : TypeError → Position
  | unconvertible _ _ p | nonIntegerIndex _ p | subrangeBound _ _ p | arraySizeMismatch _ _ p
  | invalidOperands _ _ _ p | invalidOperand _ _ p | notConstant p | notIndexable _ p
  | notAPointer _ p | notOrdinal _ p | noValue _ p => p

private def number (n : Int) : String := String.ofList (Decimal.integer n)

private def cause : TypeError → String
  | unconvertible source target _ => "Cannot convert " ++ source.name ++ " to " ++ target.name
  | nonIntegerIndex found _ => "Array index must be an integer, got " ++ found.name
  | subrangeBound lower upper _ => "Invalid subrange " ++ number lower ++ ".." ++ number upper
  | arraySizeMismatch expected found _ =>
    "Array constant has " ++ toString found ++ " elements, expected " ++ toString expected
  | invalidOperands operator left right _ =>
    "Operator '" ++ operator ++ "' cannot be applied to " ++ left.name ++ " and " ++ right.name
  | invalidOperand operator operand _ =>
    "Operator '" ++ operator ++ "' cannot be applied to " ++ operand.name
  | notConstant _ => "Expression is not constant"
  | notIndexable found _ => "Value of type " ++ found.name ++ " cannot be indexed"
  | notAPointer found _ => "Value of type " ++ found.name ++ " is not a pointer"
  | notOrdinal found _ => "Expected an ordinal type, got " ++ found.name
  | noValue name _ => "Procedure '" ++ name ++ "' does not return a value"

def message (e : TypeError) : String := e.cause ++ " at " ++ e.pos.text

end TypeError

/-- What breaks a rule of the grammar. -/
inductive SyntaxError where
  | expected (wanted found : String) (pos : Position)
  | unsupported (feature : String) (pos : Position)
  | exitValueOutsideFunction (pos : Position)
deriving DecidableEq, Repr

namespace SyntaxError

def pos : SyntaxError → Position
  | expected _ _ p | unsupported _ p | exitValueOutsideFunction p => p

def message : SyntaxError → String
  | expected wanted found pos => "Expected " ++ wanted ++ ", got " ++ found ++ " at " ++ pos.text
  | unsupported feature pos => feature ++ " are not supported at " ++ pos.text
  | exitValueOutsideFunction pos => "'exit' with a value outside of a function at " ++ pos.text

end SyntaxError

inductive CompileError where
  | group (e : GroupError)
  | scope (e : ScopeError)
  | type (e : TypeError)
  | grammar (e : SyntaxError)
  /-- The host broke off while the value of a constant was computed. -/
  | crash (pos : Position)
deriving DecidableEq, Repr

namespace CompileError

def pos : CompileError → Position
  | group e => e.pos
  | scope e => e.pos
  | type e => e.pos
  | grammar e => e.pos
  | crash p => p

def message : CompileError → String
  | group e => e.message
  | scope e => e.message
  | type e => e.message
  | grammar e => e.message
  | crash _ => "Formatting argument out of range"

end CompileError

/-- Something that may be found wrong. -/
abbrev Checked := Except CompileError

end Pascal
