import Pascal.Settings
import Pascal.Decimal.Read
import Pascal.Text.Line

/-! # Settings as text

Settings are one YAML mapping, in lines or in braces, whose values are plain or quoted scalars. Each
key may come once, and a key that is missing keeps its default. -/

namespace Pascal

/-- A scalar and whether it was written without quotes. -/
structure YamlScalar where
  text : List Char
  plain : Bool
deriving DecidableEq, Repr

namespace Yaml

def isSpace (c : Char) : Bool := c = ' ' || c = '\t'

def trimEnd (cs : List Char) : List Char := (cs.reverse.dropWhile isSpace).reverse

def trim (cs : List Char) : List Char := trimEnd (cs.dropWhile isSpace)

/-- What stands in front of a comment. A comment begins with a number sign at the start of a line or
behind a space, but not inside quotes; `quote` is the quote that is open, and `fresh` tells whether a
scalar may begin. -/
def uncomment (quote : Option Char) (fresh spaced : Bool) : List Char → List Char
  | [] => []
  | c :: cs =>
    match quote with
    | some q => c :: uncomment (if c = q then none else some q) false false cs
    | none =>
      if c = '#' && spaced then []
      else if (c = '"' || c = '\'') && fresh then c :: uncomment (some c) false false cs
      else if isSpace c then c :: uncomment none fresh true cs
      else
        c :: uncomment none (c = ':' || c = ',' || c = '\x7b') false cs

/-- A scalar in single quotes, where a quote is written twice, and what follows it. -/
def singleQuoted : List Char → Option (List Char × List Char)
  | [] => none
  | '\'' :: '\'' :: cs => (singleQuoted cs).map fun (text, rest) => ('\'' :: text, rest)
  | '\'' :: cs => some ([], cs)
  | c :: cs => (singleQuoted cs).map fun (text, rest) => (c :: text, rest)

/-- A scalar in double quotes, where a backslash stands before a quote or a backslash, and what
follows it. -/
def doubleQuoted : List Char → Option (List Char × List Char)
  | [] => none
  | '\\' :: c :: cs =>
    if c = '"' || c = '\\' then (doubleQuoted cs).map fun (text, rest) => (c :: text, rest)
    else none
  | '"' :: cs => some ([], cs)
  | c :: cs => (doubleQuoted cs).map fun (text, rest) => (c :: text, rest)

/-- A scalar in quotes and what follows it. -/
def quoted? : List Char → Option (List Char × List Char)
  | '\'' :: cs => singleQuoted cs
  | '"' :: cs => doubleQuoted cs
  | _ => none

/-- A whole scalar. -/
def scalar (cs : List Char) : YamlScalar :=
  match quoted? cs with
  | some (text, rest) => if rest.all isSpace then ⟨text, false⟩ else ⟨cs, true⟩
  | none => ⟨cs, true⟩

/-- A plain key and what follows its colon. The colon has a space behind it or ends the line. -/
def splitKey : List Char → Option (List Char × List Char)
  | [] => none
  | ':' :: [] => some ([], [])
  | ':' :: c :: cs =>
    if isSpace c || c = '\n' then some ([], cs)
    else (splitKey (c :: cs)).map fun (key, rest) => (':' :: key, rest)
  | c :: cs => (splitKey cs).map fun (key, rest) => (c :: key, rest)

/-- A key and its value. Behind a quoted key in braces no space is needed. -/
def entry (inBraces : Bool) (cs : List Char) : Option (List Char × YamlScalar) :=
  match quoted? cs with
  | some (key, rest) =>
    match rest.dropWhile isSpace with
    | ':' :: value =>
      if inBraces || (value.head?.map isSpace).getD true then some (key, scalar (trim value)) else none
    | _ => none
  | none => do
    let (key, value) ← splitKey cs
    return (trimEnd key, scalar (trim value))

/-- The spaces in front of a line. -/
def indent (line : List Char) : Nat := (line.takeWhile (· = ' ')).length

/-- Joins every line that is indented deeper than the first one to the line before it. A line that is
indented less is an error. -/
def joinDeeper (base : Nat) (current : List Char) : List (List Char) → Option (List (List Char))
  | [] => some [current]
  | line :: lines =>
    if base < indent line then joinDeeper base (current ++ ' ' :: trim line) lines
    else if indent line < base then none
    else (joinDeeper base (line.dropWhile (· = ' ')) lines).map (current :: ·)

/-- The entries of a mapping in lines. -/
def blockMapping : List (List Char) → Option (List (List Char × YamlScalar))
  | [] => some []
  | line :: lines => do
    let entries ← joinDeeper (indent line) (line.dropWhile (· = ' ')) lines
    entries.mapM (entry false)

/-- The pieces between commas outside of quotes. -/
def splitCommas (quote : Option Char) (piece : List Char) : List Char → List (List Char)
  | [] => [piece.reverse]
  | c :: cs =>
    match quote with
    | some q => splitCommas (if c = q then none else some q) (c :: piece) cs
    | none =>
      if c = ',' then piece.reverse :: splitCommas none [] cs
      else
        let fresh := piece.all isSpace
        let opens := (c = '"' || c = '\'') && (fresh || piece.head?.map isSpace = some true)
        splitCommas (if opens then some c else none) (c :: piece) cs

/-- The entries of a mapping in braces, which a comma may end. -/
def flowMapping (cs : List Char) : Option (List (List Char × YamlScalar)) :=
  match cs, cs.getLast? with
  | '\x7b' :: inner, some '\x7d' =>
    let pieces := (splitCommas none [] inner.dropLast).map trim
    let pieces := if pieces.getLast? = some [] then pieces.dropLast else pieces
    pieces.mapM (entry true)
  | _, _ => none

/-- The mapping that some lines hold, none of which is blank. -/
def mapping (lines : List (List Char)) : Option (List (List Char × YamlScalar)) :=
  match lines.head?.bind (·.dropWhile (· = ' ') |>.head?) with
  | some '\x7b' => flowMapping (trim (List.intercalate [' '] lines))
  | _ => blockMapping lines

def marker : List Char := ['-', '-', '-']

/-- The mapping of a text. A line of three dashes may stand in front of it, and then it cannot be
missing. -/
def document (text : String) : Option (List (List Char × YamlScalar)) :=
  let lines := (Text.lines text).map fun l => trimEnd (uncomment none true true l.toList)
  match lines.filter (fun l => !l.all isSpace) with
  | [] => some []
  | line :: rest =>
    if line = marker then if rest.isEmpty then none else mapping rest
    else if line.take 3 = marker && (line.drop 3).head?.map isSpace = some true then
      match (line.drop 3).dropWhile isSpace with
      | '\x7b' :: flow => mapping (('\x7b' :: flow) :: rest)
      | _ => none
    else mapping (line :: rest)

/-- The value of digits in a base. -/
def digits? (base : Nat) (cs : List Char) : Option Nat :=
  if cs.isEmpty then none
  else cs.foldlM (fun n c => do
    let d ← Decimal.hexDigit? c
    if d < base then some (base * n + d) else none) 0

/-- An unsigned integer of 64 bits: decimal without zeros in front, or hexadecimal, octal or binary
behind a mark. A plus sign may stand before it. -/
def unsigned? (s : YamlScalar) : Option Nat :=
  let cs := match s.text with
    | '+' :: cs => cs
    | cs => cs
  let n := match cs with
    | '0' :: 'x' :: ds => digits? 16 ds
    | '0' :: 'o' :: ds => digits? 8 ds
    | '0' :: 'b' :: ds => digits? 2 ds
    | '0' :: _ :: _ => none
    | ds => digits? 10 ds
  if s.plain then n.filter (· < 0x10000000000000000) else none

def boolean? (s : YamlScalar) : Option Bool :=
  if !s.plain then none
  else match String.ofList s.text with
    | "true" | "True" | "TRUE" => some true
    | "false" | "False" | "FALSE" => some false
    | _ => none

end Yaml

namespace Settings

/-- The names of the settings in a text. -/
def depthKey : String := "max_call_depth"

def snapshotsKey : String := "debug_snapshots"

/-- Changes one setting. -/
def update (s : Settings) (key : List Char) (value : YamlScalar) : Option Settings :=
  let key := String.ofList key
  if key = depthKey then (Yaml.unsigned? value).map fun n => { s with maxCallDepth := n }
  else if key = snapshotsKey then (Yaml.boolean? value).map fun b => { s with debugSnapshots := b }
  else none

/-- The settings of a text, if it is one mapping of what can be set. -/
def ofYaml? (text : String) : Option Settings := do
  let entries ← Yaml.document text
  if (entries.map (·.1)).eraseDups.length ≠ entries.length then none
  entries.foldlM (fun s (key, value) => s.update key value) {}

end Settings

end Pascal
