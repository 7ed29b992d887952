import Pascal.Parse.Cursor
import Pascal.Typing.Call

/-! # Reading expressions

Signs and `not` bind closest, then multiplication and its kin, then addition and its kin, and last a
single comparison. Operators of one rank associate to the left. -/

namespace Pascal

/-- What names mean where something is read. -/
structure Context where
  arena : Arena
  scope : Nat
  /-- Whether a loop of the same routine is around. -/
  inLoop : Bool := false

namespace Context

def lookup? (ctx : Context) (name : String) : Option Meaning := ctx.arena.lookup? ctx.scope name

/-- What a name means. In front of arguments routines come first. -/
def meaning? (ctx : Context) (name : String) (called : Bool) : Option Meaning :=
  (if called then ctx.arena.lookupRoutine? ctx.scope name else none).or (ctx.lookup? name)

end Context

def BinaryOp.relational? : Token.Kind → Option BinaryOp
  | .symbol .equal => some .equal
  | .symbol .notEqual => some .notEqual
  | .symbol .less => some .less
  | .symbol .lessEqual => some .lessEqual
  | .symbol .greater => some .greater
  | .symbol .greaterEqual => some .greaterEqual
  | .keyword .in_ => some .member
  | _ => none

def BinaryOp.additive? : Token.Kind → Option BinaryOp
  | .symbol .plus => some .add
  | .symbol .minus => some .subtract
  | .keyword .or => some .or
  | .keyword .xor => some .xor
  | _ => none

def BinaryOp.multiplicative? : Token.Kind → Option BinaryOp
  | .symbol .star => some .multiply
  | .symbol .slash => some .divide
  | .keyword .div => some .intDivide
  | .keyword .mod => some .modulo
  | .keyword .and => some .and
  | .keyword .shl => some .shl
  | .keyword .shr => some .shr
  | _ => none

/-- What may stand in front of an operand. -/
inductive Sign where
  | op (u : UnaryOp)
  | plus

namespace Sign

def ofKind? : Token.Kind → Option Sign
  | .keyword .not => some (op .not)
  | .symbol .minus => some (op .negate)
  | .symbol .plus => some plus
  | _ => none

def apply (s : Sign) (pos : Position) (e : Expr) : Checked Expr :=
  match s with
  | op u => e.applyUnary u pos
  | plus => e.applyPlus pos

end Sign

/-- The value and the type of a token that stands for itself. -/
def Token.Kind.literal? : Token.Kind → Option (Value × Ty)
  | .integer n => some (.integer n, .integer)
  | .long n => some (.long n, .long)
  | .real x => some (.double x, .double)
  | .char c => some (.char c, .char)
  | .string s => some (.string s, .string)
  | .keyword .true => some (.boolean true, .boolean)
  | .keyword .false => some (.boolean false, .boolean)
  | .keyword .nil => some (.pointer none, .nil)
  | _ => none

namespace Parser

/-- Passes over a token that `f` knows, and gives what it stands for and its place. -/
def known? {α : Type} (f : Token.Kind → Option α) : Parser (Option (α × Position)) := do
  match (← kind?).bind f with
  | none => return none
  | some a =>
    let p ← pos
    skip
    return some (a, p)

/-- Operands with operators of one rank between them. -/
def chain (op? : Token.Kind → Option BinaryOp) (operand : Parser Expr) : Parser Expr := do
  let first ← operand
  iterate (fun left => do
    match ← known? op? with
    | none => return none
    | some (op, p) =>
      let right ← operand
      return some (← check (left.applyBinary op right p))) first

/-- Applies signs to an operand, the nearest one first. -/
def applySigns : List (Sign × Position) → Expr → Checked Expr
  | [], e => .ok e
  | (s, p) :: signs, e => do s.apply p (← applySigns signs e)

/-- An operand with the signs in front of it. -/
def signed (operand : Parser Expr) : Parser Expr := do
  let signs ← repeated (known? Sign.ofKind?)
  let e ← operand
  check (applySigns signs e)

/-- One item of an array constructor. -/
def setItem (expression : Parser Expr) : Parser SetItem := do
  let low ← expression
  if ← eatSymbol .dotDot then return .range low (← expression)
  return .single low

/-- One argument of a call, perhaps with a column and a number of decimal places. -/
def argument (expression : Parser Expr) : Parser Expr := do
  let value ← expression
  if !(← eatSymbol .colon) then return value
  let width ← check ((← expression).coerce .integer)
  if !(← eatSymbol .colon) then return .format value width none ⟨.string, value.pos⟩
  let precision ← check ((← expression).coerce .integer)
  return .format value width (some precision) ⟨.string, value.pos⟩

/-- The indices of a bracket group, each taken of what the ones before lead to. -/
def indices (expression : Parser Expr) (base : Expr) : Parser Expr := do
  let first ← check (base.indexed (← expression))
  iterate (fun e => do
    if !(← eatSymbol .comma) then return none
    return some (← check (e.indexed (← expression)))) first

/-- One bracket group or one caret behind a name. -/
def suffix? (expression : Parser Expr) (e : Expr) : Parser (Option Expr) := do
  match ← group? .bracket with
  | some g => return some (← inside g (indices expression e))
  | none =>
    let p ← pos
    if ← eatSymbol .caret then return some (← check (e.dereferenced p))
    return none

/-- The indices and carets behind a name. -/
def suffixes (expression : Parser Expr) (e : Expr) : Parser Expr := iterate (suffix? expression) e

/-- A name with its arguments, indices and carets. Where a statement may follow, the call of a routine
without a result counts as well and ends there. -/
def designatorWith (ctx : Context) (expression : Parser Expr) (asStatement : Bool) :
    Parser Expr := do
  let (name, p) ← identifier
  let called := (← peekGroup? .paren).isSome
  match ctx.meaning? name called with
  | none => fail (.scope (.unresolvedIdentifier name p))
  | some (.routines _) =>
    let args ← match ← group? .paren with
      | some g => inside g (commaList (argument expression))
      | none => pure []
    let (callee, args, result) ← check (ctx.arena.resolveCall ctx.scope name args p)
    let call := Expr.call callee (ctx.arena.calleeName callee) args
    match result with
    | some ty => suffixes expression (call ⟨ty, p⟩)
    | none => if asStatement then return call ⟨.nil, p⟩ else fail (.type (.noValue name p))
  | some (.constant c) =>
    if called then fail (.scope (.notCallable name p))
    else suffixes expression (.literal c.value ⟨c.ty, p⟩)
  | some (.var v ty) =>
    if called then fail (.scope (.notCallable name p))
    else suffixes expression (.place (.var v) ⟨ty, p⟩)

/-- An operand without signs. -/
def primary (ctx : Context) (expression : Parser Expr) : Parser Expr := do
  let p ← pos
  if let some g ← group? .paren then return ← inside g expression
  if let some g ← group? .bracket then
    let items ← inside g (commaList (setItem expression))
    return ← check (SetItem.construct items p)
  match ← kind? with
  | none => unexpected "expression"
  | some (.identifier _) => designatorWith ctx expression false
  | some (.symbol .atSign) =>
    skip
    let target ← designatorWith ctx expression false
    check (target.addressOf p)
  | some k =>
    match k.literal? with
    | none => unexpected "expression"
    | some (v, ty) =>
      skip
      return .literal v ⟨ty, p⟩

/-- Two sides of a comparison, or one side alone. -/
def comparison (ctx : Context) (expression : Parser Expr) : Parser Expr := do
  let side := chain BinaryOp.additive? (chain BinaryOp.multiplicative? (signed (primary ctx expression)))
  let left ← side
  match ← known? BinaryOp.relational? with
  | none => return left
  | some (op, p) =>
    let right ← side
    check (left.applyBinary op right p)

/-- An expression whose groups are nested less deep than the given number. -/
def expressionWithin (ctx : Context) : Nat → Parser Expr
  | 0 => unexpected "expression"
  | depth + 1 => comparison ctx (expressionWithin ctx depth)

/-- An expression. -/
def expression (ctx : Context) : Parser Expr := fun c =>
  expressionWithin ctx (Item.weights c.items + 1) c

/-- A name with its arguments, indices and carets. -/
def designator (ctx : Context) (asStatement : Bool) : Parser Expr :=
  designatorWith ctx (expression ctx) asStatement

end Parser

end Pascal
