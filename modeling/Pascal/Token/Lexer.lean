import Pascal.Token
import Pascal.Text.Blank
import Pascal.Text.Letter
import Pascal.Decimal.Read

/-! # From characters to tokens

`cut` takes the first piece off a text: a blank, a comment, a token or a fault. Every piece keeps the
characters it was made from, so pieces can be put together again and positions follow from them.
`scan` cuts a text into pieces up to its end and keeps the tokens and faults. -/

namespace Pascal

/-- What is wrong with a piece of text. -/
inductive LexError.Cause where
  | unexpectedCharacter (c : Char)
  | invalidNumber (literal : String)
  | invalidCharCode (literal : String)
  | unterminatedString
  | unterminatedComment
deriving DecidableEq, Repr

structure LexError where
  cause : LexError.Cause
  pos : Position
deriving DecidableEq, Repr

def LexError.Cause.text : LexError.Cause → String
  | unexpectedCharacter c => "Unexpected character '" ++ c.toString ++ "'"
  | invalidNumber literal => "Invalid number literal '" ++ literal ++ "'"
  | invalidCharCode literal => "Invalid character code '#" ++ literal ++ "'"
  | unterminatedString => "Unterminated string literal"
  | unterminatedComment => "Unterminated comment"

def LexError.message (e : LexError) : String := e.cause.text ++ " at " ++ e.pos.text

namespace Token

/-- The first piece of a text: the characters taken, what they are, and the characters left. -/
structure Cut (α : Type) where
  taken : List Char
  found : α
  rest : List Char

/-- What a piece of text is. A fault stands behind the characters `before` of its piece. -/
inductive Piece where
  | blank
  | token (kind : Kind)
  | fault (cause : LexError.Cause) (before : List Char)

def word32Limit : Nat := 0x80000000

def word64Limit : Nat := 0x8000000000000000

/-- The literal of a natural number, in the narrowest width that holds it. -/
def Kind.ofNat? (n : Nat) : Option Kind :=
  if n < word32Limit then some (.integer (Int32.ofNat n))
  else if n < word64Limit then some (.long (Int64.ofNat n))
  else none

/-- The character with a given code; the gap of the surrogates and everything from U+110000 on has
none. -/
def charOfCode? (n : Nat) : Option Char :=
  if n < 0xD800 ∨ (0xDFFF < n ∧ n < 0x110000) then some (Char.ofNat n) else none

def isExponentSign (c : Char) : Bool := c == '+' || c == '-'

/-- The fraction of a number: a point with digits behind it. A point without them is left alone, so
that `1..5` remains a range. -/
def fraction (cs : List Char) : List Char × List Char :=
  match cs with
  | '.' :: d :: rest =>
    if d.isDigit then ('.' :: d :: rest.takeWhile Char.isDigit, rest.dropWhile Char.isDigit)
    else ([], cs)
  | _ => ([], cs)

/-- The exponent of a number: the mark, perhaps a sign, and digits. -/
def exponent (cs : List Char) : List Char × List Char :=
  match cs with
  | e :: s :: rest =>
    if e == 'e' || e == 'E' then
      if s.isDigit then (e :: s :: rest.takeWhile Char.isDigit, rest.dropWhile Char.isDigit)
      else if isExponentSign s then
        match rest with
        | d :: rest =>
          if d.isDigit then (e :: s :: d :: rest.takeWhile Char.isDigit, rest.dropWhile Char.isDigit)
          else ([], cs)
        | [] => ([], cs)
      else ([], cs)
    else ([], cs)
  | _ => ([], cs)

def orFault (literal : List Char) : Option Kind → Piece
  | some kind => .token kind
  | none => .fault (.invalidNumber (String.ofList literal)) []

/-- A number whose digits begin the text. -/
def number (cs : List Char) : Cut Piece :=
  let whole := cs.takeWhile Char.isDigit
  let (frac, rest) := fraction (cs.dropWhile Char.isDigit)
  let (exp, rest) := exponent rest
  let literal := whole ++ frac ++ exp
  let kind :=
    if frac.isEmpty && exp.isEmpty then Kind.ofNat? (Decimal.value whole)
    else (Decimal.magnitude? literal).map Kind.real
  ⟨literal, orFault literal kind, rest⟩

def isHexDigit (c : Char) : Bool := (Decimal.hexDigit? c).isSome

/-- A hexadecimal number, behind its dollar sign. -/
def hexNumber (cs : List Char) : Cut Piece :=
  let digits := cs.takeWhile isHexDigit
  let kind := if digits.isEmpty then none else Kind.ofNat? (Decimal.hexValue digits)
  ⟨'$' :: digits, orFault ('$' :: digits) kind, cs.dropWhile isHexDigit⟩

/-- Quoted text behind its opening quote, where a quote is written twice. Without a closing quote on
the same line there is none. -/
def quotedText : List Char → Cut (Option (List Char))
  | [] => ⟨[], none, []⟩
  | '\'' :: '\'' :: cs =>
    let r := quotedText cs
    ⟨'\'' :: '\'' :: r.taken, r.found.map ('\'' :: ·), r.rest⟩
  | c :: cs =>
    if c = '\'' then ⟨[c], some [], cs⟩
    else if c = '\n' then ⟨[c], none, cs⟩
    else
      let r := quotedText cs
      ⟨c :: r.taken, r.found.map (c :: ·), r.rest⟩

theorem quotedText_rest_length_le (cs : List Char) :
    (quotedText cs).rest.length ≤ cs.length := by
  fun_induction quotedText cs with
  | case1 => simp
  | case2 cs r ih => exact Nat.le_trans ih (Nat.le_add_right _ 2)
  | case3 => simp
  | case4 => simp
  | case5 c cs _ _ _ r ih => exact Nat.le_trans ih (Nat.le_add_right _ 1)

/-- The end of a string literal: more quoted pieces and character codes. The result is the text they
spell, or the fault and the characters before it. -/
def stringPieces (cs : List Char) : Cut (Except (LexError.Cause × List Char) (List Char)) :=
  match cs with
  | '\'' :: rest =>
    let piece := quotedText rest
    match piece.found with
    | none => ⟨'\'' :: piece.taken, .error (.unterminatedString, []), piece.rest⟩
    | some text =>
      have := quotedText_rest_length_le rest
      let more := stringPieces piece.rest
      let taken := '\'' :: piece.taken
      ⟨taken ++ more.taken,
        match more.found with
        | .ok tail => .ok (text ++ tail)
        | .error (.unterminatedString, _) => .error (.unterminatedString, [])
        | .error (cause, before) => .error (cause, taken ++ before),
        more.rest⟩
  | '#' :: rest =>
    let digits := rest.takeWhile Char.isDigit
    match (Decimal.natural? digits).bind charOfCode? with
    | none => ⟨'#' :: digits, .error (.invalidCharCode (String.ofList digits), []),
        rest.dropWhile Char.isDigit⟩
    | some c =>
      have : (rest.dropWhile Char.isDigit).length ≤ rest.length := (List.dropWhile_sublist _).length_le
      let more := stringPieces (rest.dropWhile Char.isDigit)
      let taken := '#' :: digits
      ⟨taken ++ more.taken,
        match more.found with
        | .ok tail => .ok (c :: tail)
        | .error (.unterminatedString, _) => .error (.unterminatedString, [])
        | .error (cause, before) => .error (cause, taken ++ before),
        more.rest⟩
  | _ => ⟨[], .ok [], cs⟩
termination_by cs.length
decreasing_by all_goals (simp_all only [List.length_cons]; omega)

/-- A string literal; one that spells a single character is a character literal. -/
def stringLiteral (cs : List Char) : Cut Piece :=
  let r := stringPieces cs
  ⟨r.taken,
    match r.found with
    | .ok [c] => .token (.char c)
    | .ok text => .token (.string (String.ofList text))
    | .error (cause, before) => .fault cause before,
    r.rest⟩

def isWordChar (c : Char) : Bool := Text.isLetterOrNumeral c || c == '_'

def wordKind (word : String) : Kind :=
  match Keyword.ofWord? word with
  | some k => .keyword k
  | none => .identifier word

def trimQuotes (cs : List Char) : List Char :=
  ((cs.dropWhile (· = '\'')).reverse.dropWhile (· = '\'')).reverse

/-- What a comment in braces asks for: `$I` or `$INCLUDE` and a name ask for that source text, and
anything else is only a comment. -/
def directive? : List Char → Option String
  | '$' :: body =>
    let (name, rest) := Text.splitWord (Text.trim body)
    let argument := Text.trim (rest.drop 1)
    let name := name.map Char.toUpper
    if (name = ['I'] ∨ name = "INCLUDE".toList) ∧ argument ≠ [] then
      some (String.ofList (trimQuotes argument))
    else none
  | _ => none

/-- The inside of a comment in parentheses and what follows it, if it ends. -/
def starComment? : List Char → Option (List Char × List Char)
  | [] => none
  | '*' :: ')' :: rest => some (['*', ')'], rest)
  | c :: cs => (starComment? cs).map fun (body, rest) => (c :: body, rest)

def one (s : Symbol) (c : Char) (cs : List Char) : Cut Piece :=
  ⟨[c], .token (.symbol s), cs⟩

def two (s : Symbol) (c d : Char) (cs : List Char) : Cut Piece :=
  ⟨[c, d], .token (.symbol s), cs⟩

/-- The longest operator or punctuation that begins a text. -/
def symbol (c : Char) (cs : List Char) : Cut Piece :=
  match c, cs with
  | '+', _ => one .plus c cs
  | '-', _ => one .minus c cs
  | '*', _ => one .star c cs
  | '/', _ => one .slash c cs
  | '=', _ => one .equal c cs
  | '^', _ => one .caret c cs
  | '@', _ => one .atSign c cs
  | '(', _ => one .leftParen c cs
  | ')', _ => one .rightParen c cs
  | '[', _ => one .leftBracket c cs
  | ']', _ => one .rightBracket c cs
  | ',', _ => one .comma c cs
  | ';', _ => one .semicolon c cs
  | ':', '=' :: rest => two .assign c '=' rest
  | ':', _ => one .colon c cs
  | '.', '.' :: rest => two .dotDot c '.' rest
  | '.', _ => one .dot c cs
  | '>', '=' :: rest => two .greaterEqual c '=' rest
  | '>', _ => one .greater c cs
  | '<', '=' :: rest => two .lessEqual c '=' rest
  | '<', '>' :: rest => two .notEqual c '>' rest
  | '<', _ => one .less c cs
  | _, _ => ⟨[c], .fault (.unexpectedCharacter c) [], cs⟩

/-- A comment in braces, behind its opening brace. -/
def braceComment (cs : List Char) : Cut Piece :=
  let body := cs.takeWhile (· ≠ '}')
  match cs.dropWhile (· ≠ '}') with
  | [] => ⟨'{' :: body, .fault .unterminatedComment [], []⟩
  | close :: rest =>
    ⟨'{' :: body ++ [close],
      match directive? body with
      | some name => .token (.includes name)
      | none => .blank,
      rest⟩

/-- A comment in parentheses and stars, behind its opening. -/
def parenComment (cs : List Char) : Cut Piece :=
  match starComment? cs with
  | some (body, rest) => ⟨'(' :: '*' :: body, .blank, rest⟩
  | none => ⟨'(' :: '*' :: cs, .fault .unterminatedComment [], []⟩

def startsWith (c : Char) : List Char → Bool
  | d :: _ => d == c
  | [] => false

/-- The first piece of the text `c :: cs`. -/
def cut (c : Char) (cs : List Char) : Cut Piece :=
  if Text.isBlank c then ⟨[c], .blank, cs⟩
  else if c = '{' then braceComment cs
  else if c = '(' ∧ startsWith '*' cs then parenComment (cs.drop 1)
  else if c = '/' ∧ startsWith '/' cs then
    ⟨c :: cs.takeWhile (· ≠ '\n'), .blank, cs.dropWhile (· ≠ '\n')⟩
  else if c = '\'' ∨ c = '#' then stringLiteral (c :: cs)
  else if c = '$' then hexNumber cs
  else if c.isDigit then number (c :: cs)
  else if Text.isLetter c ∨ c = '_' then
    let word := c :: cs.takeWhile isWordChar
    ⟨word, .token (wordKind (String.ofList word)), cs.dropWhile isWordChar⟩
  else symbol c cs

theorem length_dropWhile_le (q : Char → Bool) (cs : List Char) :
    (cs.dropWhile q).length ≤ cs.length :=
  (List.dropWhile_sublist q).length_le

theorem stringPieces_rest_length_le (cs : List Char) :
    (stringPieces cs).rest.length ≤ cs.length := by
  fun_induction stringPieces cs with
  | case1 rest piece h =>
    exact Nat.le_trans (quotedText_rest_length_le rest) (Nat.le_succ _)
  | case2 rest piece text h this more taken ih =>
    exact Nat.le_trans ih (Nat.le_trans this (Nat.le_succ _))
  | case3 rest digits h =>
    exact Nat.le_trans (length_dropWhile_le _ rest) (Nat.le_succ _)
  | case4 rest digits c h this more taken ih =>
    exact Nat.le_trans ih (Nat.le_trans this (Nat.le_succ _))
  | case5 => exact Nat.le_refl _

theorem stringLiteral_rest_length_le (c : Char) (cs : List Char) (h : c = '\'' ∨ c = '#') :
    (stringLiteral (c :: cs)).rest.length ≤ cs.length := by
  simp only [stringLiteral]
  rcases h with rfl | rfl
  · rw [stringPieces]
    split
    · exact quotedText_rest_length_le cs
    · exact Nat.le_trans (stringPieces_rest_length_le _) (quotedText_rest_length_le cs)
  · rw [stringPieces]
    split
    · exact length_dropWhile_le _ cs
    · exact Nat.le_trans (stringPieces_rest_length_le _) (length_dropWhile_le _ cs)

theorem fraction_rest_length_le (cs : List Char) : (fraction cs).2.length ≤ cs.length := by
  fun_cases fraction cs with
  | case1 d rest h => have := length_dropWhile_le Char.isDigit rest; simp only [List.length_cons]; omega
  | case2 => exact Nat.le_refl _
  | case3 => exact Nat.le_refl _

theorem exponent_rest_length_le (cs : List Char) : (exponent cs).2.length ≤ cs.length := by
  fun_cases exponent cs
  case case1 _ _ rest _ _ =>
    have := length_dropWhile_le Char.isDigit rest; simp only [List.length_cons]; omega
  case case2 _ _ _ _ _ _ rest _ =>
    have := length_dropWhile_le Char.isDigit rest; simp only [List.length_cons]; omega
  all_goals exact Nat.le_refl _

theorem number_rest_length_le (c : Char) (cs : List Char) (h : c.isDigit) :
    (number (c :: cs)).rest.length ≤ cs.length := by
  simp only [number, List.dropWhile_cons, h, if_true]
  exact Nat.le_trans (exponent_rest_length_le _)
    (Nat.le_trans (fraction_rest_length_le _) (length_dropWhile_le _ cs))

theorem symbol_rest_length_le (c : Char) (cs : List Char) :
    (symbol c cs).rest.length ≤ cs.length := by
  fun_cases symbol c cs <;> simp [one, two]

theorem braceComment_rest_length_le (cs : List Char) :
    (braceComment cs).rest.length ≤ cs.length := by
  have h := length_dropWhile_le (fun c => decide (c ≠ '}')) cs
  simp only [braceComment]
  split
  · exact Nat.zero_le _
  · rename_i rest heq
    rw [heq] at h
    exact Nat.le_trans (Nat.le_succ _) h

theorem starComment?_rest_length_le (cs : List Char) :
    ∀ r ∈ starComment? cs, r.2.length ≤ cs.length := by
  fun_induction starComment? cs with
  | case1 => simp
  | case2 rest => simp; omega
  | case3 c cs _ ih =>
    simp only [Option.mem_def, Option.map_eq_some_iff, forall_exists_index, and_imp]
    rintro r a ha rfl
    exact Nat.le_trans (ih a ha) (Nat.le_succ _)

theorem parenComment_rest_length_le (cs : List Char) :
    (parenComment cs).rest.length ≤ cs.length := by
  simp only [parenComment]
  split
  · rename_i rest h
    exact starComment?_rest_length_le cs _ h
  · exact Nat.zero_le _

/-- A piece takes at least the character it begins with. -/
theorem cut_rest_length_le (c : Char) (cs : List Char) : (cut c cs).rest.length ≤ cs.length := by
  fun_cases cut c cs
  case case1 => exact Nat.le_refl _
  case case2 => exact braceComment_rest_length_le cs
  case case3 =>
    exact Nat.le_trans (parenComment_rest_length_le _) (by simp)
  case case4 => exact length_dropWhile_le _ cs
  case case5 h => exact stringLiteral_rest_length_le c cs h
  case case6 => exact length_dropWhile_le _ cs
  case case7 h => exact number_rest_length_le c cs h
  case case8 => exact length_dropWhile_le _ cs
  case case9 => exact symbol_rest_length_le c cs

/-- The tokens and faults of a text that begins at `p`. After a fault the scan goes on behind the
piece it spoilt. -/
def scanFrom (p : Position) (cs : List Char) : List (Except LexError Token) :=
  match cs with
  | [] => [.ok ⟨.eof, p⟩]
  | c :: cs =>
    match (cut c cs).found with
    | .blank => scanFrom (p.after (cut c cs).taken) (cut c cs).rest
    | .token kind => .ok ⟨kind, p⟩ :: scanFrom (p.after (cut c cs).taken) (cut c cs).rest
    | .fault cause before =>
      .error ⟨cause, p.after before⟩ :: scanFrom (p.after (cut c cs).taken) (cut c cs).rest
termination_by cs.length
decreasing_by all_goals exact Nat.lt_succ_of_le (cut_rest_length_le c cs)

/-- The tokens and faults of a source text, up to the token that marks its end. -/
def scan (unit source : String) : List (Except LexError Token) :=
  scanFrom (Position.start unit) source.toList

/-- The tokens of a source text, or its first fault. -/
def scanAll (unit source : String) : Except LexError (List Token) := (scan unit source).mapM id

end Token

end Pascal
