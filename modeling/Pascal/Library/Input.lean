import Pascal.Library
import Pascal.Decimal.Read

/-! # Reading values

A value is read for each variable, by the kind of value the variable holds: numbers and booleans are
words, characters are single, and a string takes the rest of its line. -/

namespace Pascal.Library

/-- A way to read from the console or from a file. -/
abbrev Source := (α : Type) → Reader.Read α → Host α

def invalid {α : Type} (word expected : String) : Host α :=
  Host.fail (.invalidInput word expected)

/-- Reads a word and makes a value of it. -/
def fromWord (source : Source) (expected : String) (parse : String → Option Value) :
    Host Value := do
  let word ← source _ Reader.word
  match parse word with
  | some v => return v
  | none => invalid word expected

def boolean? (word : String) : Option Value :=
  if Text.lower word == "true" then some (.boolean true)
  else if Text.lower word == "false" then some (.boolean false)
  else none

/-- Reads a value of the kind of `old`. -/
def readLike (source : Source) (old : Value) : Host Value :=
  match old with
  | .string _ => do return .string (← source _ Reader.rest)
  | .char _ => do return .char (← source _ Reader.char)
  | .integer _ =>
    fromWord source "integer" fun w => (Decimal.integer? w.toList).bind Value.integer?
  | .long _ => fromWord source "integer" fun w => (Decimal.integer? w.toList).bind Value.long?
  | .double _ => fromWord source "real" fun w => (Decimal.real? w).map Value.double
  | .boolean _ => fromWord source "boolean" boolean?
  | v => Host.fail (v.mismatch "readable variable")

/-- Reads a value for each of the targets, and then perhaps to the end of the line. -/
def readValues (source : Source) (targets : List Ref) (line : Bool) : Host Unit := do
  for target in targets do
    Host.set target (← readLike source (← Host.get target))
  if line then source _ Reader.finishLine

def console : Source := fun _ read => Host.onConsole read

def textFile (n : Nat) : Source := fun _ read => Host.fromFile n read

end Pascal.Library
