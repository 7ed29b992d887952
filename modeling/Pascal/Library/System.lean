import Pascal.Library.Input
import Pascal.Text.Upper
import Pascal.Value.Operator

/-! # The library that every program sees -/

namespace Pascal.Library

def anyArgs : Ty := .varargs .any

/-- The references that stand for all arguments. -/
def refArgs (args : List Value) : Host (List Ref) :=
  (List.range args.length).mapM (refArg args)

def writeTo (ending : String) (args : List Value) : Host Unit := do
  Host.write ((← renderAll args) ++ ending)

def writeToFile (ending : String) (args : List Value) : Host Unit := do
  let text := (← renderAll (args.drop 1)) ++ ending
  let file ← fileArg args 0
  Host.onFile file fun f d => f.write text d

def readFrom (line : Bool) (args : List Value) : Host Unit := do
  readValues console (← refArgs args) line

def readFromFile (line : Bool) (args : List Value) : Host Unit := do
  let targets ← refArgs (args.drop 1)
  let file ← fileArg args 0
  Host.fromFile file (pure ())
  readValues (textFile file) targets line

def assign (args : List Value) : Host Unit := do
  let name ← stringArg args 1
  let file ← fileArg args 0
  Host.onFile file fun f d => .ok (f.assign name d)

def onFileArg (change : TextFile → Disk → TextFile.Change) (args : List Value) :
    Host Unit := do
  Host.onFile (← fileArg args 0) change

def fileParam : Parameter := param "file" .text

def inputOutput : List Routine :=
  [procedure "write" [param "args" anyArgs] (writeTo ""),
    procedure "writeln" [param "args" anyArgs] (writeTo "\n"),
    procedure "write" [fileParam, param "args" anyArgs] (writeToFile ""),
    procedure "writeln" [fileParam, param "args" anyArgs] (writeToFile "\n"),
    procedure "read" [varParam "args" anyArgs] (readFrom false),
    procedure "readln" [varParam "args" anyArgs] (readFrom true),
    procedure "read" [fileParam, varParam "args" anyArgs] (readFromFile false),
    procedure "readln" [fileParam, varParam "args" anyArgs] (readFromFile true),
    function "eof" [] .boolean fun _ => do return .boolean (← Host.onConsole Reader.atEnd),
    function "eof" [fileParam] .boolean fun args => do
      return .boolean (← Host.fromFile (← fileArg args 0) Reader.atEnd),
    procedure "assign" [fileParam, param "name" .string] assign,
    procedure "rewrite" [fileParam] (onFileArg TextFile.startOver),
    procedure "reset" [fileParam] (onFileArg TextFile.reset),
    procedure "append" [fileParam] (onFileArg TextFile.append),
    procedure "close" [fileParam] (onFileArg TextFile.close)]

def arrayArg (args : List Value) : Host (Int64 × List Value) := do
  match ← arg args 0 with
  | .array lower items => return (lower, items)
  | v => Host.fail (v.mismatch "array")

mutual

/-- The bytes that a value counts for. -/
def byteSize : Value → Nat
  | .boolean _ => Basic.boolean.byteSize
  | .integer _ => Basic.integer.byteSize
  | .long _ => Basic.long.byteSize
  | .double _ => Basic.double.byteSize
  | .char _ => Basic.char.byteSize
  | .string _ => Basic.string.byteSize
  | .array _ items => byteSizes items
  | .pointer _ | .text _ => 8

def byteSizes : List Value → Nat
  | [] => 0
  | v :: vs => byteSize v + byteSizes vs

end

def ordinalResult (args : List Value) : Host Value := do
  integerResult (← ordinalArg args 0)

def chr (args : List Value) : Host Value := do
  let code ← ordinalArg args 0
  match Value.char? code with
  | some v => return v
  | none => Host.fail (.invalidValue "character code" (String.ofList (Decimal.integer code)))

/-- The ordinal that lies `delta` further on. -/
def shifted (v : Value) (delta : Int) : Except Fault Value := do
  v.withOrdinal ((← v.asOrdinal) + delta)

def stepBy (delta : Int) (args : List Value) : Host Value := do
  Host.liftFault (shifted (← arg args 0) delta)

/-- Moves a variable on by an amount, or by one, in the direction of `sign`. The way to go has to fit
into 64 bits itself. -/
def stepInPlace (sign : Int) (args : List Value) : Host Unit := do
  let amount ← match args[1]? with
    | some v => Host.liftFault v.asOrdinal
    | none => pure 1
  let delta := amount * sign
  if !Value.fitsLong delta then Host.fail (.overflow "ordinal")
  else
    Host.update (← refArg args 0) fun v => shifted v delta

def stepRoutines (name : String) (sign : Int) : List Routine :=
  [procedure name [varParam "x" .integer] (stepInPlace sign),
    procedure name [varParam "x" .long] (stepInPlace sign),
    procedure name [varParam "x" .char] (stepInPlace sign),
    procedure name [varParam "x" .integer, param "n" .integer] (stepInPlace sign),
    procedure name [varParam "x" .long, param "n" .long] (stepInPlace sign),
    procedure name [varParam "x" .char, param "n" .integer] (stepInPlace sign)]

def neighbourRoutines (name : String) (delta : Int) : List Routine :=
  [Ty.integer, .long, .char, .boolean].map fun ty => function name [param "x" ty] ty (stepBy delta)

def ordinals : List Routine :=
  [function "length" [param "s" .string] .integer fun args => do
      integerResult (← stringArg args 0).length,
    function "length" [param "items" (.openArray .any)] .integer fun args => do
      integerResult (← arrayArg args).2.length,
    function "low" [param "items" (.openArray .any)] .integer fun args => do
      integerResult (← arrayArg args).1.toInt,
    function "high" [param "items" (.openArray .any)] .integer fun args => do
      let (lower, items) ← arrayArg args
      integerResult (lower + Int64.ofNat items.length - 1).toInt,
    function "sizeof" [param "value" .any] .integer fun args => do
      integerResult (byteSize (← arg args 0)),
    function "ord" [param "c" .char] .integer ordinalResult,
    function "ord" [param "b" .boolean] .integer ordinalResult,
    function "ord" [param "i" .integer] .integer ordinalResult,
    function "ord" [param "i" .long] .long fun args => do
      return .long (Int64.ofInt (← ordinalArg args 0)),
    function "chr" [param "code" .integer] .char chr] ++
  neighbourRoutines "succ" 1 ++ neighbourRoutines "pred" (-1) ++
  [function "odd" [param "x" .long] .boolean fun args => do
      return .boolean ((← ordinalArg args 0) % 2 != 0)] ++
  stepRoutines "inc" 1 ++ stepRoutines "dec" (-1)

def orOverflow (operation : String) (v : Option Value) : Host Value :=
  match v with
  | some v => return v
  | none => Host.fail (.overflow operation)

def abs (args : List Value) : Host Value := do
  match ← arg args 0 with
  | .integer n => orOverflow "abs" (Value.integer? n.toInt.natAbs)
  | .long n => orOverflow "abs" (Value.long? n.toInt.natAbs)
  | v => return .double (← Host.liftFault v.asReal).abs

def sqr (args : List Value) : Host Value := do
  match ← arg args 0 with
  | .integer n => orOverflow "sqr" (Value.integer? (n.toInt * n.toInt))
  | .long n => orOverflow "sqr" (Value.long? (n.toInt * n.toInt))
  | v =>
    let x ← Host.liftFault v.asReal
    return .double (x * x)

def numberRoutines (name : String) (run : List Value → Host Value) : List Routine :=
  [Ty.integer, .long, .double].map fun ty => function name [param "x" ty] ty run

def numbers : List Routine :=
  numberRoutines "abs" abs ++ numberRoutines "sqr" sqr ++
  [function "sqrt" [param "x" .double] .double fun args => do
      return .double (← realArg args 0).sqrt,
    function "trunc" [param "x" .double] .integer fun args => do
      wholeResult Decimal.truncate (← realArg args 0),
    function "round" [param "x" .double] .integer fun args => do
      wholeResult Decimal.roundAway (← realArg args 0)]

def strToInt (args : List Value) : Host Value := do
  let text ← stringArg args 0
  match (Decimal.integer? (Text.trim text.toList)).bind Value.integer? with
  | some v => return v
  | none => Host.fail (.invalidInput text "integer")

/-- `count` characters from an index on, counted from one, as far as the text goes. -/
def copyOf (text : String) (index count : Int) : String :=
  String.ofList ((text.toList.drop (max index 1 - 1).toNat).take count.toNat)

/-- The number of characters before the first place where `needle` stands. -/
def occurrence? (needle : List Char) (text : List Char) : Option Nat :=
  if needle.isPrefixOf text then some 0
  else match text with
    | [] => none
    | _ :: rest => (occurrence? needle rest).map (· + 1)

def strings : List Routine :=
  [function "inttostr" [param "value" .long] .string fun args => do
      return .string (String.ofList (Decimal.integer (← ordinalArg args 0))),
    function "strtoint" [param "text" .string] .integer strToInt,
    function "upcase" [param "c" .char] .char fun args => do
      return .char (← Host.liftFault (← arg args 0).asChar).toUpper,
    function "upcase" [param "s" .string] .string fun args => do
      return .string (Text.upper (← stringArg args 0)),
    function "copy" [param "s" .string, param "index" .integer, param "count" .integer] .string
      fun args => do
        let text ← stringArg args 0
        let index ← ordinalArg args 1
        let count ← ordinalArg args 2
        return .string (copyOf text index count),
    function "pos" [param "needle" .string, param "haystack" .string] .integer fun args => do
      let needle ← stringArg args 0
      let text ← stringArg args 1
      match occurrence? needle.toList text.toList with
      | some before => integerResult (before + 1)
      | none => integerResult 0,
    function "concat" [param "parts" (.varargs .string)] .string fun args => do
      return .string (← renderAll args)]

/-- The double nearest to the number of a half circle. -/
def pi : Float := Float.ofBits 0x400921FB54442D18

def system : Library where
  name := "system"
  routines := inputOutput ++ ordinals ++ numbers ++ strings
  constants := [("pi", .double pi, .double), ("maxint", .integer 2147483647, .integer)]
  types := [("text", .text)]

end Pascal.Library
