import Pascal.Position
import Pascal.Ty.Conversion
import Pascal.Value.Operator

/-! # Typed trees

What a source text means once its names are resolved and its types are checked. Every expression
carries its type and its position. -/

namespace Pascal

/-- A routine that can be called: one of the program's own or one of a library, by its number. -/
inductive Callee where
  | user (id : Nat)
  | native (id : Nat)
deriving DecidableEq, Repr

/-- A variable: the scope that declares it and its name in lower case. -/
structure VarRef where
  scope : Nat
  name : String
deriving DecidableEq, Repr

/-- The type and the position of an expression. -/
structure Note where
  ty : Ty
  pos : Position
deriving DecidableEq, Repr, Inhabited

mutual

inductive Expr where
  | literal (v : Value) (note : Note)
  | place (p : Place) (note : Note)
  /-- An array constructor. Ranges among its items stand for all their ordinals. -/
  | array (lower : Int64) (items : List Expr) (note : Note)
  | range (low high : Expr) (note : Note)
  | address (p : Place) (note : Note)
  | unary (op : UnaryOp) (operand : Expr) (note : Note)
  | binary (op : BinaryOp) (left right : Expr) (note : Note)
  | convert (c : Conversion) (operand : Expr) (note : Note)
  /-- A value with a column and perhaps a number of decimal places to be written with. -/
  | format (value width : Expr) (precision : Option Expr) (note : Note)
  | call (callee : Callee) (name : String) (args : List Arg) (note : Note)

/-- What can be assigned to or passed by reference. -/
inductive Place where
  | var (v : VarRef)
  | element (base : Place) (index : Expr)
  | charAt (base : Place) (index : Expr)
  | deref (pointer : Expr)

inductive Arg where
  | value (e : Expr)
  | reference (p : Place)

end

instance : Inhabited Expr := ⟨.literal default default⟩

namespace Expr

def note : Expr → Note
  | literal _ n | place _ n | array _ _ n | range _ _ n | address _ n | unary _ _ n
  | binary _ _ _ n | convert _ _ n | format _ _ _ n | call _ _ _ n => n

def ty (e : Expr) : Ty := e.note.ty

def pos (e : Expr) : Position := e.note.pos

/-- The same expression, taken for one of another type. -/
def retype (t : Ty) : Expr → Expr
  | literal v n => literal v ⟨t, n.pos⟩
  | place p n => place p ⟨t, n.pos⟩
  | array lower items n => array lower items ⟨t, n.pos⟩
  | range low high n => range low high ⟨t, n.pos⟩
  | address p n => address p ⟨t, n.pos⟩
  | unary op e n => unary op e ⟨t, n.pos⟩
  | binary op l r n => binary op l r ⟨t, n.pos⟩
  | convert c e n => convert c e ⟨t, n.pos⟩
  | format v w p n => format v w p ⟨t, n.pos⟩
  | call c name args n => call c name args ⟨t, n.pos⟩

def literal? : Expr → Option Value
  | literal v _ => some v
  | _ => none

def place? : Expr → Option Place
  | place p _ => some p
  | _ => none

/-- The expression as one of another type, if values convert. -/
def convertTo? (e : Expr) (target : Ty) : Option Expr :=
  match Conversion.between? e.ty target with
  | none => none
  | some c => some (if c.isRetype then e.retype target else convert c e ⟨target, e.pos⟩)

end Expr

inductive Direction where
  | up | down
deriving DecidableEq, Repr

inductive Label where
  | value (v : Value)
  | range (low high : Value)

mutual

inductive Stmt where
  | block (body : List Stmt) (pos : Position)
  | assign (target : Place) (value : Expr) (pos : Position)
  | call (callee : Callee) (name : String) (args : List Arg) (pos : Position)
  | ifThen (condition : Expr) (yes : Stmt) (no : Option Stmt) (pos : Position)
  | whileDo (condition : Expr) (body : Stmt) (pos : Position)
  | repeatUntil (body : List Stmt) (condition : Expr) (pos : Position)
  | forDo (counter : Place) (first : Expr) (direction : Direction) (last : Expr) (body : Stmt)
      (pos : Position)
  | caseOf (selector : Expr) (arms : List Arm) (otherwise : Option Stmt) (pos : Position)
  | breakLoop (pos : Position)
  | continueLoop (pos : Position)
  | exitRoutine (pos : Position)
  | new (target : Place) (pointee : Ty) (pos : Position)
  | dispose (target : Place) (pos : Position)
  | empty (pos : Position)

/-- The statement for the values that one of the labels names. -/
inductive Arm where
  | mk (labels : List Label) (body : Stmt)

end

namespace Stmt

def pos : Stmt → Position
  | block _ p | assign _ _ p | call _ _ _ p | ifThen _ _ _ p | whileDo _ _ p | repeatUntil _ _ p
  | forDo _ _ _ _ _ p | caseOf _ _ _ p | breakLoop p | continueLoop p | exitRoutine p | new _ _ p
  | dispose _ p | empty p => p

end Stmt

instance : Inhabited Stmt := ⟨.empty default⟩

end Pascal
