import Pascal.CompileError
import Pascal.Tree.Fold

/-! # The types of expressions

Operands widen to a common type before an operator applies to them, and a value is converted where one
of another type is expected. Each function here takes expressions that are typed already and gives the
one built from them. -/

namespace Pascal

namespace Ty

/-- The type that values of two types both convert to, if it is one of the two. -/
def common? (left right : Ty) : Option Ty :=
  if left.isAny || right.isAny then none
  else if (Conversion.between? left right).isSome then some right
  else if (Conversion.between? right left).isSome then some left
  else none

/-- Characters and strings. -/
def isText : Ty → Bool
  | basic .char | basic .string => true
  | _ => false

def isBoolean : Ty → Bool
  | basic .boolean => true
  | _ => false

def isBasic : Ty → Bool
  | basic _ => true
  | _ => false

/-- Types whose values can be compared for equality. -/
def isComparable : Ty → Bool
  | basic _ | pointer _ | nil => true
  | _ => false

end Ty

namespace Expr

/-- The number of elements that an item of an array constructor stands for, where it can be told
before the run. It is computed in 64 bits: a range of `2 ^ 63` ordinals or more counts for none. -/
def itemCount? : Expr → Option Nat
  | .range low high _ => do
    let first ← (← low.constant?).asOrdinal.toOption
    let last ← (← high.constant?).asOrdinal.toOption
    return (Int64.ofInt (last - first + 1)).toInt.toNat
  | _ => some 1

/-- The number of elements of an array constructor, where it can be told before the run. -/
def count? : List Expr → Option Nat
  | [] => some 0
  | e :: es => do return (← e.itemCount?) + (← count? es)

/-- The items of an array constructor, each turned into `element`. Ranges stay ranges. -/
def fitItems (fit : Expr → Checked Expr) (element : Ty) : List Expr → Checked (List Expr)
  | [] => .ok []
  | .range low high n :: items => do
    let item := Expr.range (← fit low) (← fit high) ⟨element, n.pos⟩
    return item :: (← fitItems fit element items)
  | item :: items => do
    let item ← fit item
    return item :: (← fitItems fit element items)

/-- The expression as one of another type. -/
def converted (e : Expr) (target : Ty) : Checked Expr :=
  match e.convertTo? target with
  | some e => .ok e
  | none => .error (.type (.unconvertible e.ty target e.pos))

/-- Turns an expression into one of the type that is expected. An array constructor takes over
declared bounds if it has as many elements as they leave room for; where only the run can tell, that is
not asked. -/
def coerce (e : Expr) : Ty → Checked Expr
  | .array element bounds =>
    match e with
    | .array lower items n =>
      if bounds.isOpen then Expr.converted (.array lower items n) (.array element bounds)
      else do
        let found := (count? items).getD bounds.length
        if found ≠ bounds.length then
          throw (.type (.arraySizeMismatch bounds.length found n.pos))
        let items ← fitItems (fun e => e.coerce element) element items
        Expr.converted (.array bounds.lower items ⟨.array element bounds, n.pos⟩)
          (.array element bounds)
    | e => e.converted (.array element bounds)
  | target => e.converted target

/-- Applies `not` or a minus sign. -/
def applyUnary (op : UnaryOp) (operand : Expr) (pos : Position) : Checked Expr :=
  let fits := match op with
    | .not => operand.ty.isBoolean || operand.ty.isIntegral
    | .negate => operand.ty.isNumeric
  if fits then .ok (.unary op operand ⟨operand.ty, pos⟩)
  else .error (.type (.invalidOperand op.symbol operand.ty pos))

/-- A plus sign, which numbers may have. -/
def applyPlus (operand : Expr) (pos : Position) : Checked Expr :=
  if operand.ty.isNumeric then .ok operand
  else .error (.type (.invalidOperand "+" operand.ty pos))

/-- The type that the operands of an operator are converted to, and the type of the result. Shifts and
`in` have rules of their own. -/
def operandTypes? (op : BinaryOp) (left right : Ty) : Option (Ty × Ty) :=
  let within (fits : Ty → Bool) (result : Ty → Ty × Ty) : Option (Ty × Ty) := do
    let ty ← left.common? right
    if fits ty then some (result ty) else none
  match op with
  | .add =>
    if left.isText && right.isText then some (.string, .string)
    else within Ty.isNumeric fun ty => (ty, ty)
  | .subtract | .multiply => within Ty.isNumeric fun ty => (ty, ty)
  | .divide => within Ty.isNumeric fun _ => (.double, .double)
  | .intDivide | .modulo => within Ty.isIntegral fun ty => (ty, ty)
  | .and | .or | .xor => within (fun ty => ty.isBoolean || ty.isIntegral) fun ty => (ty, ty)
  | .equal | .notEqual => within Ty.isComparable fun ty => (ty, .boolean)
  | .less | .lessEqual | .greater | .greaterEqual => within Ty.isBasic fun ty => (ty, .boolean)
  | .shl | .shr | .member => none

/-- Applies an operator to two operands. -/
def applyBinary (op : BinaryOp) (left right : Expr) (pos : Position) : Checked Expr :=
  let invalid := CompileError.type (.invalidOperands op.symbol left.ty right.ty pos)
  match op with
  | .shl | .shr =>
    if left.ty.isIntegral && right.ty.isIntegral then .ok (.binary op left right ⟨left.ty, pos⟩)
    else .error invalid
  | .member =>
    match right.ty with
    | .array element _ =>
      if element.isAny || (Conversion.between? left.ty element).isSome then do
        return .binary op (← left.coerce element) right ⟨.boolean, pos⟩
      else .error invalid
    | _ => .error invalid
  | _ =>
    match operandTypes? op left.ty right.ty with
    | none => .error invalid
    | some (operand, result) => do
      return .binary op (← left.coerce operand) (← right.coerce operand) ⟨result, pos⟩

/-- The address of a variable or of a part of one. -/
def addressOf (target : Expr) (pos : Position) : Checked Expr :=
  match target with
  | .place p n => .ok (.address p ⟨.pointer n.ty, pos⟩)
  | e => .error (.type (.invalidOperand "@" e.ty pos))

/-- The element of an array variable or the character of a string variable at an index. -/
def indexed (base index : Expr) : Checked Expr :=
  if !index.ty.isIntegral then .error (.type (.nonIntegerIndex index.ty index.pos))
  else match base.ty, base.place? with
    | .array element _, some p => .ok (.place (.element p index) ⟨element, base.pos⟩)
    | .basic .string, some p => .ok (.place (.charAt p index) ⟨.char, base.pos⟩)
    | found, _ => .error (.type (.notIndexable found base.pos))

/-- What a pointer refers to. -/
def dereferenced (pointer : Expr) (pos : Position) : Checked Expr :=
  match pointer.ty with
  | .pointer target => .ok (.place (.deref pointer) ⟨target, pos⟩)
  | found => .error (.type (.notAPointer found pos))

/-- The value of an expression that is known before the run, and its type. -/
def evaluate (e : Expr) : Checked (Value × Ty) :=
  match e.fold? with
  | some (.literal v n) => .ok (v, n.ty)
  | some e => .error (.type (.notConstant e.pos))
  | none => .error (.crash e.pos)

/-- The value of a constant expression of an expected type. -/
def evaluateAs (e : Expr) (ty : Ty) : Checked Value := do
  return (← (← e.coerce ty).evaluate).1

end Expr

/-- An item of an array constructor as it is written. -/
inductive SetItem where
  | single (e : Expr)
  | range (low high : Expr)

namespace SetItem

def ends : SetItem → List Expr
  | single e => [e]
  | range low high => [low, high]

/-- The type that the expressions of an array constructor have in common. -/
def elementType : Option Ty → List Expr → Checked Ty
  | none, [] => .ok .any
  | some ty, [] => .ok ty
  | none, e :: es => elementType (some e.ty) es
  | some ty, e :: es =>
    match ty.common? e.ty with
    | some ty => elementType (some ty) es
    | none => .error (.type (.invalidOperands BinaryOp.member.symbol ty e.ty e.pos))

/-- The item as an expression of the element type. -/
def toExpr (element : Ty) : SetItem → Checked Expr
  | single e => e.coerce element
  | range low high => do
    if !element.isOrdinal then throw (.type (.notOrdinal element low.pos))
    return .range (← low.coerce element) (← high.coerce element) ⟨element, low.pos⟩

/-- The array constructor of some items. Its bounds are open until it is converted. -/
def construct (items : List SetItem) (pos : Position) : Checked Expr := do
  let element ← elementType none (items.flatMap ends)
  let items ← items.mapM (toExpr element)
  return .array 0 items ⟨.openArray element, pos⟩

end SetItem

end Pascal
