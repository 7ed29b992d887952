import Pascal.Signature
import Pascal.World
import Pascal.Text.Name

/-! # Libraries of routines

A library lists its routines with their signatures, its constants and its types. Arguments come
converted to the types of the parameters, those of a `var` parameter as pointers to what they refer
to. -/

namespace Pascal

structure Routine where
  name : String
  signature : Signature
  run : List Value → Host (Option Value)

structure Library where
  name : String
  routines : List Routine
  constants : List (String × Value × Ty) := []
  types : List (String × Ty) := []

namespace Library

/-- The first library of a name, in any letter case. -/
def find? (libraries : List Library) (name : String) : Option Library :=
  libraries.find? (fun l => Text.sameName l.name name)

/-- A parameter that is passed by value. -/
def param (name : String) (ty : Ty) : Parameter := { name, ty }

/-- A parameter that is passed by reference. -/
def varParam (name : String) (ty : Ty) : Parameter := { name, ty, mode := .var }

/-- A routine without a result. -/
def procedure (name : String) (params : List Parameter) (run : List Value → Host Unit) : Routine :=
  ⟨name, ⟨params, none⟩, fun args => do run args; return none⟩

/-- A routine with a result. -/
def function (name : String) (params : List Parameter) (result : Ty)
    (run : List Value → Host Value) : Routine :=
  ⟨name, ⟨params, some result⟩, fun args => do return some (← run args)⟩

/-- The argument at an index. -/
def arg (args : List Value) (index : Nat) : Host Value :=
  match args[index]? with
  | some v => pure v
  | none => throw (.host ("missing argument " ++ toString index))

/-- The reference that stands for a `var` argument. -/
def refArg (args : List Value) (index : Nat) : Host Ref := do
  match ← arg args index with
  | .pointer (some r) => return r
  | v => throw (.host ("argument " ++ toString index ++ " is not a reference: " ++ v.typeName))

def ordinalArg (args : List Value) (index : Nat) : Host Int := do
  Host.liftFault (← arg args index).asOrdinal

def realArg (args : List Value) (index : Nat) : Host Float := do
  Host.liftFault (← arg args index).asReal

def stringArg (args : List Value) (index : Nat) : Host String := do
  Host.liftFault (← arg args index).asString

def fileArg (args : List Value) (index : Nat) : Host Nat := do
  Host.liftFault (← arg args index).asText

/-- The texts of all values in a row. -/
def renderAll (args : List Value) : Host String := do
  return String.join (← args.mapM Host.render)

/-- A 32-bit integer as a result. -/
def integerResult (n : Int) : Host Value :=
  match Value.integer? n with
  | some v => return v
  | none => Host.fail (.overflow "integer result")

/-- A whole number that a real was rounded to, as a 32-bit integer. Reals that are not finite have
none. -/
def wholeResult (round : Float → Int) (x : Float) : Host Value :=
  if x.isNaN || x.isInf then Host.fail (.overflow "conversion to integer")
  else match Value.integer? (round x) with
    | some v => return v
    | none => Host.fail (.overflow "conversion to integer")

end Library

end Pascal
