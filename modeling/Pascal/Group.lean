import Pascal.Token.Lexer

/-! # Nested groups of tokens

Openers and closers pair up tokens into groups. Whatever is wrong with the nesting is recorded in
every group that is open at the time, so that a reader of any level runs into it. -/

namespace Pascal

inductive GroupKind where
  | root | begin_ | case | record | class_ | unit | repeat_ | paren | bracket
deriving DecidableEq, Repr, Inhabited

namespace GroupKind

/-- The group that a token opens. -/
def openedBy? : Token.Kind → Option GroupKind
  | .keyword .begin_ => some begin_
  | .keyword .case => some case
  | .keyword .record => some record
  | .keyword .class_ => some class_
  | .keyword .unit => some unit
  | .keyword .repeat_ => some repeat_
  | .symbol .leftParen => some paren
  | .symbol .leftBracket => some bracket
  | _ => none

def isCloser : Token.Kind → Bool
  | .keyword .end_ | .keyword .until_ | .symbol .rightParen | .symbol .rightBracket => true
  | _ => false

def closedBy (g : GroupKind) (k : Token.Kind) : Bool :=
  match g with
  | root => false
  | begin_ | case | record | class_ | unit => k.isKeyword .end_
  | repeat_ => k.isKeyword .until_
  | paren => k.isSymbol .rightParen
  | bracket => k.isSymbol .rightBracket

/-- How messages name what closes a group. -/
def closer : GroupKind → String
  | root => "end of input"
  | begin_ | case | record | class_ | unit => "'end'"
  | repeat_ => "'until'"
  | paren => "')'"
  | bracket => "']'"

/-- How messages name a group. -/
def text : GroupKind → String
  | root => "source"
  | begin_ => "'begin'"
  | case => "'case'"
  | record => "'record'"
  | class_ => "'class'"
  | unit => "'unit'"
  | repeat_ => "'repeat'"
  | paren => "'('"
  | bracket => "'['"

end GroupKind

/-- How many source texts may include one another below the first one. -/
def maxIncludeDepth : Nat := 16

inductive GroupError where
  | lex (e : LexError)
  | unclosed (kind : GroupKind) (opened pos : Position)
  | mismatchedCloser (kind : GroupKind) (opened : Position) (found : String) (pos : Position)
  | strayCloser (found : String) (pos : Position)
  | includeNotFound (name : String) (pos : Position)
  | includeUnreadable (name message : String) (pos : Position)
  | includeTooDeep (pos : Position)
deriving DecidableEq, Repr

namespace GroupError

def pos : GroupError → Position
  | lex e => e.pos
  | unclosed _ _ p | mismatchedCloser _ _ _ p | strayCloser _ p | includeNotFound _ p
  | includeUnreadable _ _ p | includeTooDeep p => p

def message : GroupError → String
  | lex e => e.message
  | unclosed kind opened pos =>
    kind.text ++ " opened at " ++ opened.text ++ " is never closed, reached end of input at " ++
      pos.text
  | mismatchedCloser kind opened found pos =>
    "Expected " ++ kind.closer ++ " to close " ++ kind.text ++ " opened at " ++ opened.text ++
      ", got " ++ found ++ " at " ++ pos.text
  | strayCloser found pos => "Unexpected " ++ found ++ " at " ++ pos.text ++ ": nothing is open to close"
  | includeNotFound name pos => "Include file '" ++ name ++ "' not found at " ++ pos.text
  | includeUnreadable name message pos =>
    "Include file '" ++ name ++ "' could not be read at " ++ pos.text ++ ": " ++ message
  | includeTooDeep pos =>
    "Includes nested deeper than " ++ toString maxIncludeDepth ++ " levels at " ++ pos.text

end GroupError

/-- A token, a group with the tokens that open and close it, or something wrong with the nesting. -/
inductive Item where
  | token (t : Token)
  | group (kind : GroupKind) (opened closed : Token) (items : List Item)
  | error (e : GroupError)
deriving Inhabited

structure Group where
  kind : GroupKind
  opened : Token
  closed : Token
  items : List Item
deriving Inhabited

namespace Group

/-- What went wrong while the group was open, in order. -/
def errors (g : Group) : List GroupError :=
  g.items.filterMap fun
    | .error e => some e
    | _ => none

end Group

namespace Item

def pos : Item → Position
  | token t => t.pos
  | group _ opened _ _ => opened.pos
  | error e => e.pos

mutual

/-- The number of tokens, groups and errors in an item. -/
def weight : Item → Nat
  | token _ => 1
  | error _ => 1
  | group _ _ _ items => 1 + weights items

def weights : List Item → Nat
  | [] => 0
  | i :: is => weight i + weights is

end

end Item

end Pascal
