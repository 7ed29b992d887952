import Pascal.Position
import Pascal.Text.Name
import Pascal.Decimal.Shortest

/-! # Tokens -/

namespace Pascal

/-- The reserved words. Some end in an underscore here because they are reserved elsewhere too. -/
inductive Keyword where
  | program | unit | uses | interface | implementation | initialization | finalization
  | const | type | var | function | procedure | forward
  | begin_ | end_ | if_ | then_ | else_ | while_ | do_ | for_ | to_ | downto | repeat_ | until_
  | case | of | array | record | class_
  | nil | true | false | break_ | continue_ | exit
  | div | mod | and | or | xor | not | shl | shr | in_
deriving DecidableEq, Repr

namespace Keyword

def text : Keyword → String
  | program => "program" | unit => "unit" | uses => "uses" | interface => "interface"
  | implementation => "implementation" | initialization => "initialization"
  | finalization => "finalization" | const => "const" | type => "type" | var => "var"
  | function => "function" | procedure => "procedure" | forward => "forward"
  | begin_ => "begin" | end_ => "end" | if_ => "if" | then_ => "then" | else_ => "else"
  | while_ => "while" | do_ => "do" | for_ => "for" | to_ => "to" | downto => "downto"
  | repeat_ => "repeat" | until_ => "until" | case => "case" | of => "of" | array => "array"
  | record => "record" | class_ => "class" | nil => "nil" | true => "true" | false => "false"
  | break_ => "break" | continue_ => "continue" | exit => "exit" | div => "div" | mod => "mod"
  | and => "and" | or => "or" | xor => "xor" | not => "not" | shl => "shl" | shr => "shr"
  | in_ => "in"

def all : List Keyword :=
  [program, unit, uses, interface, implementation, initialization, finalization, const, type, var,
    function, procedure, forward, begin_, end_, if_, then_, else_, while_, do_, for_, to_, downto,
    repeat_, until_, case, of, array, record, class_, nil, true, false, break_, continue_, exit,
    div, mod, and, or, xor, not, shl, shr, in_]

/-- The keyword that a word spells in any letter case. -/
def ofWord? (word : String) : Option Keyword := all.find? (fun k => k.text == Text.lower word)

end Keyword

/-- Operators and punctuation. -/
inductive Symbol where
  | plus | minus | star | slash | assign | equal | notEqual | less | lessEqual | greater
  | greaterEqual | caret | atSign
  | leftParen | rightParen | leftBracket | rightBracket | comma | semicolon | colon | dot | dotDot
deriving DecidableEq, Repr

def Symbol.text : Symbol → String
  | plus => "+" | minus => "-" | star => "*" | slash => "/" | assign => ":=" | equal => "="
  | notEqual => "<>" | less => "<" | lessEqual => "<=" | greater => ">" | greaterEqual => ">="
  | caret => "^" | atSign => "@" | leftParen => "(" | rightParen => ")" | leftBracket => "["
  | rightBracket => "]" | comma => "," | semicolon => ";" | colon => ":" | dot => "."
  | dotDot => ".."

namespace Token

inductive Kind where
  | identifier (name : String)
  | integer (value : Int32)
  | long (value : Int64)
  | real (value : Float)
  | char (value : Char)
  | string (value : String)
  | keyword (word : Keyword)
  | symbol (sign : Symbol)
  /-- A directive that asks for another source text in its place. -/
  | includes (name : String)
  | eof
deriving Repr, Inhabited

private def quoted (s : String) : String := "'" ++ s ++ "'"

/-- How messages name a token. -/
def Kind.describe : Kind → String
  | identifier name => "identifier " ++ quoted name
  | integer value => "integer " ++ String.ofList (Decimal.integer value.toInt)
  | long value => "integer " ++ String.ofList (Decimal.integer value.toInt)
  | real value => "real " ++ Decimal.plain value
  | char value => "character " ++ quoted value.toString
  | string value => "string " ++ quoted value
  | keyword word => quoted word.text
  | symbol sign => quoted sign.text
  | includes name => "include directive " ++ quoted name
  | eof => "end of input"

def Kind.isKeyword (k : Kind) (w : Keyword) : Bool :=
  match k with
  | keyword word => word = w
  | _ => false

def Kind.isSymbol (k : Kind) (s : Symbol) : Bool :=
  match k with
  | symbol sign => sign = s
  | _ => false

def Kind.isEof : Kind → Bool
  | eof => true
  | _ => false

end Token

structure Token where
  kind : Token.Kind
  pos : Position
deriving Repr, Inhabited

def Token.describe (t : Token) : String := t.kind.describe

end Pascal
