import Pascal.Parse.Stmt

/-! # Reading declarations

Declarations extend the arena one by one, and each sees those before it. -/

namespace Pascal

/-- Where declarations stand. In the interface of a unit routines have only headers. -/
inductive Section where
  | definitions | interface
deriving DecidableEq, Repr

namespace Arena

/-- Declares the parameters and the result of a routine in its scope. Where that was done for an earlier
header nothing is left to do. -/
def declareParameters (a : Arena) (id : Nat) : Except ScopeError Arena := do
  let f := a.function id
  if !(a.scope f.scope).vars.isEmpty then return a
  let declared (name : String) (ty : Ty) (a : Arena) : Except ScopeError Arena := do
    return (← a.declareVariable f.scope ⟨name, ty, f.pos, none⟩).2
  let a ← f.signature.params.foldlM (fun a p =>
    declared p.name (match p.ty with | .varargs element => .openArray element | ty => ty) a) a
  match f.signature.result with
  | none => return a
  | some ty => declared resultName ty a

end Arena

namespace Parser

def checkScope {α : Type} (r : Except ScopeError α) : Parser α :=
  check (r.mapError .scope)

/-- Declares variables of one type and one initial value. -/
def declareAll (scope : Nat) (names : List (String × Position)) (ty : Ty) (initial : Option Value)
    (a : Arena) : Parser Arena :=
  checkScope (names.foldlM (fun a (name, p) => do
    return (← a.declareVariable scope ⟨name, ty, p, initial⟩).2) a)

/-- A constant. One with a type is a variable that starts with its value. -/
def constantDeclaration (scope : Nat) (a : Arena) : Parser Arena := do
  let ctx : Context := { arena := a, scope }
  let (name, p) ← identifier
  let a ←
    if ← eatSymbol .colon then do
      let ty ← type ctx
      expectSymbol .equal
      let v ← initializer ctx ty
      declareAll scope [(name, p)] ty (some v) a
    else do
      expectSymbol .equal
      let (v, ty, _) ← constant ctx
      checkScope (a.declareConstant scope ⟨name, v, ty, p⟩)
  expectSymbol .semicolon
  return a

def typeDeclaration (scope : Nat) (a : Arena) : Parser Arena := do
  let (name, p) ← identifier
  expectSymbol .equal
  let ty ← type { arena := a, scope }
  expectSymbol .semicolon
  checkScope (a.declareType scope name ty p)

/-- Variables of one type, perhaps with an initial value. -/
def variableDeclaration (scope : Nat) (a : Arena) : Parser Arena := do
  let ctx : Context := { arena := a, scope }
  let names ← commaSeparated identifier
  expectSymbol .colon
  let ty ← type ctx
  let initial ← if ← eatSymbol .equal then some <$> initializer ctx ty else pure none
  expectSymbol .semicolon
  declareAll scope names ty initial a

/-- Declarations of one sort, as long as names come next. -/
def each (declaration : Arena → Parser Arena) (a : Arena) : Parser Arena :=
  iterate (fun a => do
    match ← identifier? with
    | none => return none
    | some _ => some <$> declaration a) a

def paramMode : Parser ParamMode := do
  if ← eatKeyword .var then return .var
  if ← eatKeyword .const then return .const
  return .value

/-- Parameters of one type and one mode. -/
def parameterGroup (ctx : Context) : Parser (List Parameter) := do
  let mode ← paramMode
  let names ← commaSeparated identifier
  expectSymbol .colon
  let ty ← type ctx
  return names.map fun (name, _) => ⟨name, ty, mode⟩

/-- The parameters in the parentheses of a header. -/
def parameters (ctx : Context) : Parser (List Parameter) := do
  if ← isDone then return []
  let first ← parameterGroup ctx
  let others ← repeated do
    if !(← eatSymbol .semicolon) then return none
    if ← isDone then return none
    return some (← parameterGroup ctx)
  return first ++ others.flatten

/-- The header of a routine: its name, its signature and the place of its name. -/
def header (ctx : Context) : Parser (String × Signature × Position) := do
  let isFunction ← atKeyword .function
  skip
  let (name, p) ← identifier
  let params ← match ← group? .paren with
    | some g => inside g (parameters ctx)
    | none => pure []
  let result ←
    if isFunction then do
      expectSymbol .colon
      some <$> type ctx
    else pure none
  expectSymbol .semicolon
  return (name, ⟨params, result⟩, p)

/-- A routine. Its body is read in its own scope, where `declarations` reads what it declares. -/
def routine (declarations : Nat → Arena → Parser Arena) (scope : Nat) (part : Section) (a : Arena) :
    Parser Arena := do
  let (name, signature, p) ← header { arena := a, scope }
  let (id, a) ← checkScope (a.declareFunction scope name signature p)
  let a ← checkScope (a.declareParameters id)
  if ← eatKeyword .forward then
    expectSymbol .semicolon
    return a
  if part = .interface then return a
  let own := (a.function id).scope
  let a ← declarations own a
  let body ← block (statement { arena := a, scope := own }) (← group .begin_)
  expectSymbol .semicolon
  return a.modifyFunction id fun f => { f with body := some body }

/-- One section of constants, types or variables, or one routine. -/
def declarationPart? (declarations : Nat → Arena → Parser Arena) (scope : Nat) (part : Section)
    (a : Arena) : Parser (Option Arena) := do
  match ← kind? with
  | some (.keyword .const) =>
    skip
    some <$> each (constantDeclaration scope) a
  | some (.keyword .type) =>
    skip
    some <$> each (typeDeclaration scope) a
  | some (.keyword .var) =>
    skip
    some <$> each (variableDeclaration scope) a
  | some (.keyword .procedure) | some (.keyword .function) =>
    some <$> routine declarations scope part a
  | _ => return none

/-- Declarations whose routines are nested less deep than the given number. -/
def declarationsWithin : Nat → Nat → Section → Arena → Parser Arena
  | 0, _, _, a => return a
  | depth + 1, scope, part, a =>
    iterate (declarationPart? (fun own => declarationsWithin depth own .definitions) scope part) a

/-- The declarations that come next. -/
def declarations (scope : Nat) (part : Section) (a : Arena) : Parser Arena := fun c =>
  declarationsWithin (c.items.length + 1) scope part a c

end Parser

end Pascal
