import Pascal.CompileError

/-! # Reading the items of a group

A cursor holds the items of one group that are not read yet, and the token that closes the group, which
is what comes next once all items are read. -/

namespace Pascal

structure Cursor where
  items : List Item
  closed : Token

/-- Reads items from a cursor. -/
abbrev Parser := StateT Cursor Checked

namespace Cursor

def ofGroup (g : Group) : Cursor := ⟨g.items, g.closed⟩

/-- The token that comes next, if it is a token that comes next. -/
def kind? (c : Cursor) : Option Token.Kind :=
  match c.items with
  | .token t :: _ => some t.kind
  | _ => none

/-- The place of what comes next. -/
def pos (c : Cursor) : Position :=
  match c.items with
  | i :: _ => i.pos
  | [] => c.closed.pos

/-- The complaint about what comes next. If that is something wrong with the nesting, it is reported
itself. -/
def unexpected (c : Cursor) (wanted : String) : CompileError :=
  match c.items with
  | .error e :: _ => .group e
  | .token t :: _ => .grammar (.expected wanted t.describe t.pos)
  | .group _ opened _ _ :: _ => .grammar (.expected wanted opened.describe opened.pos)
  | [] => .grammar (.expected wanted c.closed.describe c.closed.pos)

end Cursor

namespace Parser

def fail {α : Type} (e : CompileError) : Parser α := fun _ => .error e

/-- Complains about what comes next. -/
def unexpected {α : Type} (wanted : String) : Parser α := fun c => .error (c.unexpected wanted)

/-- Something that may be found wrong without reading on. -/
def check {α : Type} (r : Checked α) : Parser α := fun c => do return (← r, c)

def pos : Parser Position := fun c => .ok (c.pos, c)

def isDone : Parser Bool := fun c => .ok (c.items.isEmpty, c)

def kind? : Parser (Option Token.Kind) := fun c => .ok (c.kind?, c)

/-- The token behind the next item, if it is a token. -/
def kindAfter? : Parser (Option Token.Kind) := fun c =>
  .ok ({ c with items := c.items.tail }.kind?, c)

/-- Passes over the next item. -/
def skip : Parser Unit := fun c => .ok ((), { c with items := c.items.tail })

/-- Whether a token of a kind comes next. -/
def at_ (wanted : Token.Kind → Bool) : Parser Bool := do
  return match ← kind? with
    | some k => wanted k
    | none => false

def atKeyword (w : Keyword) : Parser Bool := at_ (·.isKeyword w)

def atSymbol (s : Symbol) : Parser Bool := at_ (·.isSymbol s)

/-- Passes over a keyword if it comes next. -/
def eatKeyword (w : Keyword) : Parser Bool := do
  if ← atKeyword w then
    skip
    return true
  return false

/-- Passes over a symbol if it comes next. -/
def eatSymbol (s : Symbol) : Parser Bool := do
  if ← atSymbol s then
    skip
    return true
  return false

def expectKeyword (w : Keyword) : Parser Unit := do
  if !(← eatKeyword w) then unexpected (Token.Kind.keyword w).describe

def expectSymbol (s : Symbol) : Parser Unit := do
  if !(← eatSymbol s) then unexpected (Token.Kind.symbol s).describe

/-- The name of the identifier that comes next, if one does. -/
def identifier? : Parser (Option String) := do
  return match ← kind? with
    | some (.identifier name) => some name
    | _ => none

/-- The identifier that must come next and its place. -/
def identifier : Parser (String × Position) := do
  match ← identifier? with
  | some name =>
    let p ← pos
    skip
    return (name, p)
  | none => unexpected "identifier"

/-- The group of a kind that comes next, if one does. -/
def peekGroup? (kind : GroupKind) : Parser (Option Group) := fun c =>
  match c.items with
  | .group k opened closed items :: _ =>
    .ok (if k = kind then some ⟨k, opened, closed, items⟩ else none, c)
  | _ => .ok (none, c)

/-- Passes over a group of a kind if one comes next. -/
def group? (kind : GroupKind) : Parser (Option Group) := do
  let g ← peekGroup? kind
  if g.isSome then skip
  return g

/-- The group of a kind that must come next. -/
def group (kind : GroupKind) : Parser Group := do
  match ← group? kind with
  | some g => return g
  | none => unexpected kind.text

/-- Everything must be read. -/
def done : Parser Unit := fun c =>
  if c.items.isEmpty then .ok ((), c) else .error (c.unexpected c.closed.describe)

/-- Reads the items of a group from the first one. What is left of them is dropped. -/
def within {α : Type} (g : Group) (p : Parser α) : Parser α := fun c => do
  return ((← p (.ofGroup g)).1, c)

/-- Reads all items of a group. -/
def inside {α : Type} (g : Group) (p : Parser α) : Parser α :=
  within g do
    let a ← p
    done
    return a

/-- Repeats what gives `none` at its end. Each round but the last one reads at least one item, so as
many rounds as there are items left are enough. -/
def repeatWithin {α : Type} (p : Parser (Option α)) : Nat → Parser (List α)
  | 0 => return []
  | n + 1 => do
    match ← p with
    | none => return []
    | some a => return a :: (← repeatWithin p n)

/-- Repeats what gives `none` at its end and reads at least one item before it. -/
def repeated {α : Type} (p : Parser (Option α)) : Parser (List α) := fun c =>
  repeatWithin p (c.items.length + 1) c

/-- Carries a result through steps up to the one that gives `none`. -/
def iterateWithin {α : Type} (step : α → Parser (Option α)) : Nat → α → Parser α
  | 0, a => return a
  | n + 1, a => do
    match ← step a with
    | none => return a
    | some a => iterateWithin step n a

/-- Carries a result through steps that each read at least one item, up to the one that gives `none`. -/
def iterate {α : Type} (step : α → Parser (Option α)) (a : α) : Parser α := fun c =>
  iterateWithin step (c.items.length + 1) a c

/-- One or more of what is separated by commas. -/
def commaSeparated {α : Type} (p : Parser α) : Parser (List α) := do
  let first ← p
  let others ← repeated do
    if ← eatSymbol .comma then return some (← p)
    return none
  return first :: others

/-- What is separated by commas up to the end of the items, with or without a last comma. -/
def commaList {α : Type} (p : Parser α) : Parser (List α) := do
  if ← isDone then return []
  let first ← p
  let others ← repeated do
    if !(← eatSymbol .comma) then return none
    if ← isDone then return none
    return some (← p)
  return first :: others

end Parser

end Pascal
