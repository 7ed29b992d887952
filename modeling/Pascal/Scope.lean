import Pascal.Library
import Pascal.Tree

/-! # Scopes

Scopes, routines and libraries are numbered in the order they are made. A scope has one table of the
names it declares, so that a name means one thing in it; only routines share a name, as overloads.
Names are kept in lower case. -/

namespace Pascal

/-- The name of the variable that holds the result of a function. -/
def resultName : String := "result"

structure Variable where
  name : String
  ty : Ty
  pos : Position
  initial : Option Value

structure Constant where
  name : String
  value : Value
  ty : Ty
  pos : Position

/-- What a name is declared as. -/
inductive Entity where
  | routines (ids : List Nat)
  | constant (c : Constant)
  | var (v : Variable)
  | type (ty : Ty)

/-- How messages name the kinds of declarations. -/
def Entity.kind : Entity → String
  | routines _ => "Routine"
  | constant _ => "Constant"
  | var _ => "Variable"
  | type _ => "Type"

structure Declaration where
  name : String
  /-- Where the name was declared first. -/
  pos : Position
  entity : Entity

inductive ScopeKind where
  | program
  | unit
  | function (id : Nat)
deriving DecidableEq, Repr

inductive Import where
  | library (id : Nat)
  | unit (scope : Nat)
deriving DecidableEq, Repr

structure Scope where
  kind : ScopeKind
  name : String
  parent : Option Nat
  /-- The declarations of the scope, in order. -/
  declared : List Declaration := []
  imports : List Import := []

namespace Scope

/-- What a name, given in lower case, is declared as. -/
def find? (s : Scope) (key : String) : Option Declaration := s.declared.find? (·.name == key)

def entity? (s : Scope) (key : String) : Option Entity := (s.find? key).map fun d => d.entity

def routines? (s : Scope) (key : String) : Option (List Nat) :=
  match s.entity? key with
  | some (.routines ids) => some ids
  | _ => none

def varNamed? (s : Scope) (key : String) : Option Variable :=
  match s.entity? key with
  | some (.var v) => some v
  | _ => none

def type? (s : Scope) (key : String) : Option Ty :=
  match s.entity? key with
  | some (.type ty) => some ty
  | _ => none

/-- The variables of the scope in the order of their declarations. -/
def vars (s : Scope) : List Variable :=
  s.declared.filterMap fun d =>
    match d.entity with
    | .var v => some v
    | _ => none

end Scope

/-- A routine of the program. -/
structure UserRoutine where
  name : String
  signature : Signature
  /-- The scope of its parameters, its variables and its result. -/
  scope : Nat
  /-- The scope that declares it. -/
  declaredIn : Nat
  pos : Position
  body : Option Stmt

/-- What a library offers, by names in lower case. -/
structure LibraryScope where
  name : String
  routines : List (String × Nat) := []
  constants : List (String × Constant) := []
  types : List (String × Ty) := []

namespace LibraryScope

/-- The routines of a name, in the order of the library. -/
def named (l : LibraryScope) (key : String) : List Nat :=
  l.routines.filterMap fun (name, id) => if name == key then some id else none

end LibraryScope

structure Arena where
  scopes : Array Scope := #[]
  functions : Array UserRoutine := #[]
  natives : Array Routine := #[]
  libraries : Array LibraryScope := #[]

inductive ScopeError where
  | unresolvedIdentifier (name : String) (pos : Position)
  | namingConflict (name kind : String) (pos : Position) (previousKind : String) (previous : Position)
  | duplicateBody (name : String) (pos previous : Position)
  | missingBody (name : String) (pos : Position)
  | ambiguousOverload (name arguments : String) (pos : Position)
  | noApplicableOverload (name arguments : String) (pos : Position)
  | misplacedVarargs (name : String) (pos : Position)
  | libraryNotFound (name : String) (pos : Position)
  | libraryUnreadable (name message : String) (pos : Position)
  | circularUnit (name : String) (pos : Position)
  | unknownType (name : String) (pos : Position)
  | notCallable (name : String) (pos : Position)
  | notAssignable (name : String) (pos : Position)
  | outsideLoop (statement : String) (pos : Position)
deriving DecidableEq, Repr

namespace ScopeError

def pos : ScopeError → Position
  | unresolvedIdentifier _ p | namingConflict _ _ p _ _ | duplicateBody _ p _ | missingBody _ p
  | ambiguousOverload _ _ p | noApplicableOverload _ _ p | misplacedVarargs _ p
  | libraryNotFound _ p | libraryUnreadable _ _ p | circularUnit _ p | unknownType _ p
  | notCallable _ p | notAssignable _ p | outsideLoop _ p => p

private def quoted (s : String) : String := "'" ++ s ++ "'"

def message : ScopeError → String
  | unresolvedIdentifier name pos => "Unresolved identifier " ++ quoted name ++ " at " ++ pos.text
  | namingConflict name kind pos previousKind previous =>
    kind ++ " " ++ quoted name ++ " declared at " ++ pos.text ++ " conflicts with " ++ previousKind ++
      " " ++ quoted name ++ " declared at " ++ previous.text
  | duplicateBody name pos previous =>
    "Routine " ++ quoted name ++ " at " ++ pos.text ++ " already has a body declared at " ++
      previous.text
  | missingBody name pos =>
    "Forward declared routine " ++ quoted name ++ " at " ++ pos.text ++ " has no body"
  | ambiguousOverload name arguments pos =>
    "Call to " ++ quoted name ++ " with (" ++ arguments ++ ") is ambiguous at " ++ pos.text
  | noApplicableOverload name arguments pos =>
    "No overload of " ++ quoted name ++ " accepts (" ++ arguments ++ ") at " ++ pos.text
  | misplacedVarargs name pos =>
    "Varargs parameter " ++ quoted name ++ " must be the last parameter at " ++ pos.text
  | libraryNotFound name pos => "Library " ++ quoted name ++ " not found at " ++ pos.text
  | libraryUnreadable name message pos =>
    "Unit " ++ quoted name ++ " could not be read at " ++ pos.text ++ ": " ++ message
  | circularUnit name pos =>
    "Unit " ++ quoted name ++ " at " ++ pos.text ++ " uses itself through its dependencies"
  | unknownType name pos => "Unknown type " ++ quoted name ++ " at " ++ pos.text
  | notCallable name pos => quoted name ++ " is not a routine at " ++ pos.text
  | notAssignable name pos => quoted name ++ " cannot be assigned to at " ++ pos.text
  | outsideLoop statement pos => quoted statement ++ " outside of a loop at " ++ pos.text

end ScopeError

namespace Arena

instance : Inhabited Scope := ⟨⟨.program, "", none, [], []⟩⟩

instance : Inhabited UserRoutine := ⟨⟨"", ⟨[], none⟩, 0, 0, default, none⟩⟩

def scope (a : Arena) (id : Nat) : Scope := a.scopes[id]?.getD default

def function (a : Arena) (id : Nat) : UserRoutine := a.functions[id]?.getD default

def library (a : Arena) (id : Nat) : LibraryScope := a.libraries[id]?.getD { name := "" }

def signature (a : Arena) : Callee → Signature
  | .user id => (a.function id).signature
  | .native id => (a.natives[id]?.map (·.signature)).getD ⟨[], none⟩

def calleeName (a : Arena) : Callee → String
  | .user id => (a.function id).name
  | .native id => (a.natives[id]?.map (·.name)).getD ""

/-- A new scope and its number. -/
def push (a : Arena) (kind : ScopeKind) (name : String) (parent : Option Nat) : Nat × Arena :=
  (a.scopes.size, { a with scopes := a.scopes.push { kind, name, parent } })

def modifyScope (a : Arena) (id : Nat) (f : Scope → Scope) : Arena :=
  { a with scopes := a.scopes.modify id f }

def modifyFunction (a : Arena) (id : Nat) (f : UserRoutine → UserRoutine) : Arena :=
  { a with functions := a.functions.modify id f }

/-- The routine whose body a scope belongs to. -/
def functionOf? (a : Arena) (scope : Nat) : Option Nat :=
  match (a.scope scope).kind with
  | .function id => some id
  | _ => none

/-- The conflict between a declaration and an earlier one of the same name. -/
def conflict (name : String) (entity : Entity) (pos : Position) (d : Declaration) :
    ScopeError :=
  .namingConflict name entity.kind pos d.entity.kind d.pos

/-- Declares a name that the scope does not have yet. -/
def declare (a : Arena) (scope : Nat) (name : String) (pos : Position) (entity : Entity) :
    Except ScopeError Arena :=
  let key := Text.lower name
  match (a.scope scope).find? key with
  | some d => .error (conflict name entity pos d)
  | none => .ok (a.modifyScope scope fun s => { s with declared := s.declared ++ [⟨key, pos, entity⟩] })

def declareVariable (a : Arena) (scope : Nat) (v : Variable) : Except ScopeError (VarRef × Arena) := do
  let a ← a.declare scope v.name v.pos (.var v)
  return (⟨scope, Text.lower v.name⟩, a)

def declareConstant (a : Arena) (scope : Nat) (c : Constant) : Except ScopeError Arena :=
  a.declare scope c.name c.pos (.constant c)

def declareType (a : Arena) (scope : Nat) (name : String) (ty : Ty) (pos : Position) :
    Except ScopeError Arena :=
  a.declare scope name pos (.type ty)

def isVarargs : Ty → Bool
  | .varargs _ => true
  | _ => false

/-- The parameter that takes any number of arguments without being the last one. -/
def misplaced? (s : Signature) : Option Parameter :=
  match s.params.findIdx? (fun p => isVarargs p.ty) with
  | some i => if i + 1 = s.params.length then none else s.params[i]?
  | none => none

def sameResult : Option Ty → Option Ty → Bool
  | none, none => true
  | some t, some t' => t.agrees t'
  | _, _ => false

/-- Adds a routine with a scope of its own. -/
def addFunction (a : Arena) (declaredIn : Nat) (name : String) (signature : Signature)
    (pos : Position) : Nat × Arena :=
  let id := a.functions.size
  let (scope, a) := a.push (.function id) name (some declaredIn)
  let f : UserRoutine := { name, signature, scope, declaredIn, pos, body := none }
  (id, { a with functions := a.functions.push f })

/-- Declares the header of a routine. A header like an earlier one without a body denotes the earlier
routine; any other one is a new routine. -/
def declareFunction (a : Arena) (declaredIn : Nat) (name : String) (signature : Signature)
    (pos : Position) : Except ScopeError (Nat × Arena) := do
  if let some p := misplaced? signature then
    throw (.misplacedVarargs p.name pos)
  let key := Text.lower name
  match (a.scope declaredIn).find? key with
  | none =>
    let (id, a) := a.addFunction declaredIn name signature pos
    return (id, ← a.declare declaredIn name pos (.routines [id]))
  | some ⟨_, _, .routines ids⟩ =>
    match ids.find? (fun id => (a.function id).signature.sameParameters signature) with
    | some id =>
      let f := a.function id
      if f.body.isSome then throw (.duplicateBody name pos f.pos)
      if !sameResult f.signature.result signature.result then
        throw (.namingConflict name "Routine" pos "Routine" f.pos)
      return (id, a)
    | none =>
      let (id, a) := a.addFunction declaredIn name signature pos
      return (id, a.modifyScope declaredIn fun s =>
        { s with declared := s.declared.map fun d =>
            if d.name == key then { d with entity := .routines (ids ++ [id]) } else d })
  | some d => throw (conflict name (.routines []) pos d)

/-- Adds the routines of a library. -/
def addLibrary (a : Arena) (name : String) (routines : List Routine) : Nat × Arena :=
  let first := a.natives.size
  let names := routines.zipIdx.map fun (r, i) => (Text.lower r.name, first + i)
  (a.libraries.size,
    { a with
      natives := a.natives ++ routines.toArray
      libraries := a.libraries.push { name := Text.lower name, routines := names } })

def addLibraryConstant (a : Arena) (library : Nat) (c : Constant) : Arena :=
  { a with libraries := a.libraries.modify library fun l =>
      { l with constants := (Text.lower c.name, c) :: l.constants } }

def addLibraryType (a : Arena) (library : Nat) (name : String) (ty : Ty) : Arena :=
  { a with libraries := a.libraries.modify library fun l =>
      { l with types := (Text.lower name, ty) :: l.types } }

def libraryNamed? (a : Arena) (name : String) : Option Nat :=
  a.libraries.findIdx? (fun l => l.name == Text.lower name)

/-- Makes a library or a unit visible in a scope. -/
def addImport (a : Arena) (scope : Nat) (i : Import) : Arena :=
  a.modifyScope scope fun s =>
    if s.imports.contains i then s else { s with imports := s.imports ++ [i] }

/-- The routines that have a header and no body. -/
def missingBodies (a : Arena) : List UserRoutine :=
  a.functions.toList.filter (fun f => f.body.isNone)

end Arena

end Pascal
