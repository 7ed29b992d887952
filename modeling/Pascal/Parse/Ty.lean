import Pascal.Parse.Expr

/-! # Reading types and constants -/

namespace Pascal

/-- The names of types that no declaration is needed for. -/
def Ty.builtin? (name : String) : Option Ty :=
  match Text.lower name with
  | "integer" | "byte" | "shortint" | "smallint" | "word" | "longint" | "cardinal" => some .integer
  | "int64" | "qword" => some .long
  | "real" | "single" | "double" | "extended" => some .double
  | "boolean" => some .boolean
  | "char" => some .char
  | "string" => some .string
  | _ => none

namespace Parser

/-- A constant expression, its type and its place. -/
def constant (ctx : Context) : Parser (Value × Ty × Position) := do
  let e ← expression ctx
  let (v, ty) ← check e.evaluate
  return (v, ty, e.pos)

/-- A constant of an ordinal type: its number, its type and its place. -/
def constantOrdinal (ctx : Context) : Parser (Int × Ty × Position) := do
  let (v, ty, p) ← constant ctx
  if !ty.isOrdinal then fail (.type (.notOrdinal ty p))
  match v.asOrdinal with
  | .ok n => return (n, ty, p)
  | .error _ => fail (.type (.notConstant p))

/-- A constant integer and its place. -/
def integerBound (ctx : Context) : Parser (Int64 × Position) := do
  match ← constant ctx with
  | (.integer n, _, p) => return (n.toInt64, p)
  | (.long n, _, p) => return (n, p)
  | (_, ty, p) => fail (.type (.nonIntegerIndex ty p))

/-- The bounds of one dimension of an array. -/
def dimension (ctx : Context) : Parser Subrange := do
  let (lower, p) ← integerBound ctx
  expectSymbol .dotDot
  let (upper, _) ← integerBound ctx
  match Subrange.between? lower upper with
  | some r => return r
  | none => fail (.type (.subrangeBound lower.toInt upper.toInt p))

/-- A range as a type, which is the type of its bounds. -/
def rangeType (ctx : Context) : Parser Ty := do
  let (lower, ty, p) ← constantOrdinal ctx
  expectSymbol .dotDot
  let (upper, _, _) ← constantOrdinal ctx
  if upper < lower then fail (.type (.subrangeBound lower upper p))
  return ty

/-- A type that begins with a name. A name of a type that is declared comes before one that is not,
and the name of a constant begins a range. The length of a string is read over. -/
def namedType (ctx : Context) (name : String) : Parser Ty := do
  let p ← pos
  if let some ty := ctx.arena.lookupType? ctx.scope name then
    skip
    return ty
  if let some ty := Ty.builtin? name then
    skip
    if ty = .string then let _ ← group? .bracket
    return ty
  match ctx.lookup? name with
  | some (.constant _) => rangeType ctx
  | _ => fail (.scope (.unknownType name p))

/-- A type of at most as many words as the given number. -/
def typeWithin (ctx : Context) : Nat → Parser Ty
  | 0 => unexpected "type"
  | n + 1 => do
    let p ← pos
    if (← peekGroup? .record).isSome then fail (.grammar (.unsupported "records" p))
    if (← peekGroup? .class_).isSome then fail (.grammar (.unsupported "classes" p))
    match ← kind? with
    | none => unexpected "type"
    | some (.identifier name) => namedType ctx name
    | some (.keyword .array) =>
      skip
      let dimensions ← match ← group? .bracket with
        | some g => inside g (commaSeparated (dimension ctx))
        | none => pure [Subrange.unbounded]
      expectKeyword .of
      let element ← typeWithin ctx n
      return dimensions.foldr (fun bounds ty => .array ty bounds) element
    | some (.symbol .caret) =>
      skip
      return .pointer (← typeWithin ctx n)
    | some _ => rangeType ctx

/-- A type. -/
def type (ctx : Context) : Parser Ty := fun c => typeWithin ctx (c.items.length + 1) c

/-- The constant that a variable of a type starts with. An array may be written as a list in
parentheses. -/
def initializer (ctx : Context) : Ty → Parser Value
  | .array element bounds => do
    match ← group? .paren with
    | some g =>
      let items ← inside g (commaList (initializer ctx element))
      if !bounds.isOpen && items.length != bounds.length then
        fail (.type (.arraySizeMismatch bounds.length items.length g.opened.pos))
      return .array bounds.lower items
    | none => check ((← expression ctx).evaluateAs (.array element bounds))
  | ty => do check ((← expression ctx).evaluateAs ty)

end Parser

end Pascal
