import Pascal.Parse.Ty

/-! # Reading statements -/

namespace Pascal

namespace Context

/-- The result of the function whose body is being read, as a place with its type. -/
def ownResult? (ctx : Context) : Option (Place × Ty) := do
  let id ← ctx.arena.functionOf? ctx.scope
  let ty ← (ctx.arena.function id).signature.result
  return (.var ⟨ctx.scope, resultName⟩, ty)

/-- The result of the nearest enclosing function of a name. Assigning to the name of a function sets
its result. -/
def namedResult? (ctx : Context) (name : String) : Option (Place × Ty) :=
  (ctx.arena.chain ctx.scope).findSome? fun scope => do
    let id ← ctx.arena.functionOf? scope
    let f := ctx.arena.function id
    let ty ← f.signature.result
    if Text.sameName f.name name then return (.var ⟨scope, resultName⟩, ty) else none

end Context

namespace Parser

/-- An expression that must be a condition. -/
def condition (ctx : Context) : Parser Expr := do
  check ((← expression ctx).coerce .boolean)

/-- Whether the items end or a token comes next that ends a row of statements. -/
def atEnd (stop : Token.Kind → Bool) : Parser Bool := do
  return (← isDone) || (← at_ stop)

/-- Statements with semicolons between them, up to the end of the items or a token that `stop` knows. -/
def statements (statement : Parser Stmt) (stop : Token.Kind → Bool) : Parser (List Stmt) := do
  let rounds ← repeated (α := Option Stmt) do
    if ← atEnd stop then return none
    if ← eatSymbol .semicolon then return some none
    let s ← statement
    if !(← atEnd stop) then expectSymbol .semicolon
    return some (some s)
  return rounds.filterMap id

/-- All statements up to the end of the items. -/
def allStatements (statement : Parser Stmt) : Parser (List Stmt) :=
  statements statement (fun _ => false)

/-- The statements of a group. -/
def block (statement : Parser Stmt) (g : Group) : Parser Stmt := do
  return .block (← inside g (allStatements statement)) g.opened.pos

/-- The body of the loop is in the group, and its condition comes behind. -/
def repeatLoop (ctx : Context) (body : Parser Stmt) (g : Group) (p : Position) : Parser Stmt := do
  let body ← inside g (allStatements body)
  return .repeatUntil body (← condition ctx) p

def ifStatement (ctx : Context) (statement : Parser Stmt) (p : Position) : Parser Stmt := do
  let c ← condition ctx
  expectKeyword .then_
  let yes ← statement
  let no ← if ← eatKeyword .else_ then some <$> statement else pure none
  return .ifThen c yes no p

def whileLoop (ctx : Context) (body : Parser Stmt) (p : Position) : Parser Stmt := do
  let c ← condition ctx
  expectKeyword .do_
  return .whileDo c (← body) p

/-- The direction that a loop counts in. -/
def direction : Parser Direction := do
  if ← eatKeyword .to_ then return .up
  if ← eatKeyword .downto then return .down
  unexpected "'to' or 'downto'"

/-- The counter of a loop is a variable of an ordinal type. -/
def forLoop (ctx : Context) (body : Parser Stmt) (p : Position) : Parser Stmt := do
  let counter ← designator ctx false
  if !counter.ty.isOrdinal then fail (.type (.notOrdinal counter.ty counter.pos))
  match counter.place? with
  | some (.var v) =>
    expectSymbol .assign
    let first ← check ((← expression ctx).coerce counter.ty)
    let direction ← direction
    let last ← check ((← expression ctx).coerce counter.ty)
    expectKeyword .do_
    return .forDo (.var v) first direction last (← body) p
  | _ => fail (.scope (.notAssignable "for loop counter" counter.pos))

/-- One label of an arm: a constant or a range of constants. -/
def label (ctx : Context) (selector : Ty) : Parser Label := do
  let low ← check ((← expression ctx).evaluateAs selector)
  if ← eatSymbol .dotDot then
    return .range low (← check ((← expression ctx).evaluateAs selector))
  return .value low

/-- The arms of a case statement up to its `else` or its end. -/
def arms (ctx : Context) (statement : Parser Stmt) (selector : Ty) : Parser (List Arm) := do
  let atEnd := atEnd (·.isKeyword .else_)
  let rounds ← repeated (α := Option Arm) do
    if ← atEnd then return none
    if ← eatSymbol .semicolon then return some none
    let labels ← commaSeparated (label ctx selector)
    expectSymbol .colon
    let body ← statement
    if !(← atEnd) then expectSymbol .semicolon
    return some (some (.mk labels body))
  return rounds.filterMap id

def caseStatement (ctx : Context) (statement : Parser Stmt) (g : Group) (p : Position) :
    Parser Stmt :=
  inside g do
    let selector ← expression ctx
    if !selector.ty.isOrdinal then fail (.type (.notOrdinal selector.ty selector.pos))
    expectKeyword .of
    let arms ← arms ctx statement selector.ty
    let elsePos ← pos
    let otherwise ←
      if ← eatKeyword .else_ then do
        pure (some (.block (← allStatements statement) elsePos))
      else pure none
    return .caseOf selector arms otherwise p

/-- `break` and `continue` are only for loops. -/
def loopSignal (ctx : Context) (s : Stmt) (name : String) (p : Position) : Parser Stmt :=
  if ctx.inLoop then return s else fail (.scope (.outsideLoop name p))

/-- A value given to `exit` is assigned to the result first. -/
def exitStatement (ctx : Context) (p : Position) : Parser Stmt := do
  match ← group? .paren with
  | none => return .exitRoutine p
  | some g =>
    if g.items.isEmpty then return .exitRoutine p
    match ctx.ownResult? with
    | none => fail (.grammar (.exitValueOutsideFunction p))
    | some (target, ty) =>
      let e ← inside g (expression ctx)
      let value ← check (e.coerce ty)
      return .block [.assign target value p, .exitRoutine p] p

/-- The pointer variable that storage is made for or taken from. -/
def allocation (ctx : Context) (name : String) (g : Group) : Parser (Place × Ty) := do
  let target ← inside g (designator ctx false)
  match target.ty, target.place? with
  | .pointer pointee, some p => return (p, pointee)
  | .pointer _, none => fail (.scope (.notAssignable name target.pos))
  | found, _ => fail (.type (.notAPointer found target.pos))

/-- An assignment to what a name leads to, or a call. -/
def assignmentOrCall (ctx : Context) (name : String) (p : Position) : Parser Stmt := do
  let target ← designator ctx true
  if ← eatSymbol .assign then
    let value ← expression ctx
    match target.place? with
    | none => fail (.scope (.notAssignable name p))
    | some place => return .assign place (← check (value.coerce target.ty)) p
  match target with
  | .call callee name args _ => return .call callee name args p
  | _ => unexpected "':='"

/-- A statement that begins with a name. `new` and `dispose` are known where nothing else has their
names. -/
def namedStatement (ctx : Context) (name : String) (p : Position) : Parser Stmt := do
  let assigns := (← kindAfter?).any (·.isSymbol .assign)
  match if assigns then ctx.namedResult? name else none with
  | some (target, ty) =>
    skip
    skip
    let value ← check ((← expression ctx).coerce ty)
    return .assign target value p
  | none =>
    let key := Text.lower name
    if (key == "new" || key == "dispose") && (ctx.lookup? name).isNone then
      skip
      let (target, pointee) ← allocation ctx key (← group .paren)
      return if key == "new" then .new target pointee p else .dispose target p
    assignmentOrCall ctx name p

/-- One statement, where `self` reads the statements inside it. -/
def statementWith (self : Context → Parser Stmt) (ctx : Context) : Parser Stmt := do
  let p ← pos
  let body := self { ctx with inLoop := true }
  if let some g ← group? .begin_ then return ← block (self ctx) g
  if let some g ← group? .repeat_ then return ← repeatLoop ctx body g p
  if let some g ← group? .case then return ← caseStatement ctx (self ctx) g p
  if ← isDone then return .empty p
  match ← kind? with
  | some (.keyword .if_) =>
    skip
    ifStatement ctx (self ctx) p
  | some (.keyword .while_) =>
    skip
    whileLoop ctx body p
  | some (.keyword .for_) =>
    skip
    forLoop ctx body p
  | some (.keyword .break_) =>
    skip
    loopSignal ctx (.breakLoop p) "break" p
  | some (.keyword .continue_) =>
    skip
    loopSignal ctx (.continueLoop p) "continue" p
  | some (.keyword .exit) =>
    skip
    exitStatement ctx p
  | some (.identifier name) => namedStatement ctx name p
  | some (.symbol .semicolon) | some (.keyword .else_) | some (.keyword .until_) => return .empty p
  | _ => unexpected "statement"

/-- A statement with at most as many items as the given number. Every statement inside another one has
fewer. -/
def statementWithin : Nat → Context → Parser Stmt
  | 0 => fun _ => unexpected "statement"
  | n + 1 => statementWith (statementWithin n)

/-- A statement. -/
def statement (ctx : Context) : Parser Stmt := fun c =>
  statementWithin (Item.weights c.items + 1) ctx c

end Parser

end Pascal
