import Pascal.Scope

/-!
# Scopes in tables

A scope of an arena keeps one list of declarations. Here it keeps a table for each kind of declaration
and one for all names, and a name is claimed in that last one before anything else is done with it.
What has been changed when a declaration fails stays changed, so that it takes a proof to see that
nothing has been.
-/

namespace Pascal.Tabled

/-- What a name is declared as. -/
inductive Kind where
  | var
  | constant
  | type
  | routine
deriving DecidableEq, Repr

/-- How messages name the kinds of declarations. -/
def Kind.describe : Kind → String
  | var => "Variable"
  | constant => "Constant"
  | type => "Type"
  | routine => "Routine"

/-- A table whose keys are names in lower case. -/
abbrev Table (α : Type) := String → Option α

namespace Table

variable {α : Type}

def empty : Table α := fun _ => none

def insert (t : Table α) (key : String) (x : α) : Table α := fun k => if k = key then some x else t k

@[simp] theorem insert_apply (t : Table α) (key k : String) (x : α) :
    t.insert key x k = if k = key then some x else t k := rfl

/-- A table of lists with one more item under a key. -/
def append (t : Table (List α)) (key : String) (x : α) : Table (List α) :=
  t.insert key ((t key).getD [] ++ [x])

end Table

structure Scope where
  kind : ScopeKind
  name : String
  parent : Option Nat
  routines : Table (List Callee) := .empty
  /-- The variables in the order of their declarations. -/
  vars : List Variable := []
  /-- Where a variable is among these. -/
  places : Table Nat := .empty
  constants : Table Constant := .empty
  types : Table Ty := .empty
  /-- What each name is declared as, and where. -/
  declared : Table (Kind × Position) := .empty
  imports : List Import := []

instance : Inhabited Scope := ⟨{ kind := .program, name := "", parent := none }⟩

namespace Scope

/-- Whether the table of a kind has a name. -/
def has (s : Scope) : Kind → String → Prop
  | .var, key => (s.places key).isSome
  | .constant, key => (s.constants key).isSome
  | .type, key => (s.types key).isSome
  | .routine, key => (s.routines key).isSome

/-- The variable that stands where the table says. -/
def placed (s : Scope) (key : String) : Option Variable :=
  (s.places key).bind fun i => s.vars[i]?

/-- The variable of a name. -/
def var? (s : Scope) (name : String) : Option Variable := s.placed (Text.lower name)

end Scope

/-- What a library offers. -/
structure Library where
  name : String
  routines : Table (List Nat) := .empty
  constants : Table Constant := .empty
  types : Table Ty := .empty

structure Arena where
  scopes : Array Scope := #[]
  functions : Array UserRoutine := #[]
  natives : Array Routine := #[]
  libraries : Array Library := #[]

namespace Arena

def scope (s : Arena) (id : Nat) : Scope := s.scopes[id]?.getD default

def function (s : Arena) (id : Nat) : UserRoutine := s.functions[id]?.getD default

def library (s : Arena) (id : Nat) : Library := s.libraries[id]?.getD { name := "" }

def modifyScope (s : Arena) (id : Nat) (f : Scope → Scope) : Arena :=
  { s with scopes := s.scopes.modify id f }

def modifyLibrary (s : Arena) (id : Nat) (f : Library → Library) : Arena :=
  { s with libraries := s.libraries.modify id f }

def addScope (s : Arena) (c : Scope) : Arena := { s with scopes := s.scopes.push c }

/-- The arena with one more routine and a scope for it. -/
def addFunction (s : Arena) (declaredIn : Nat) (name : String) (signature : Signature)
    (pos : Position) : Arena :=
  let scope := s.scopes.size
  let s := s.addScope { kind := .function s.functions.size, name, parent := some declaredIn }
  let f : UserRoutine := { name, signature, scope, declaredIn, pos, body := none }
  { s with functions := s.functions.push f }

/-- Adds routines to a library and to those of an arena. -/
def addRoutines : List Routine → Library × Array Routine → Library × Array Routine
  | [], known => known
  | r :: rs, (l, natives) =>
    addRoutines rs ({ l with routines := l.routines.append (Text.lower r.name) natives.size },
      natives.push r)

/-- The arena with one more library. -/
def addLibrary (s : Arena) (name : String) (routines : List Routine) : Arena :=
  let (l, natives) := addRoutines routines ({ name := Text.lower name }, s.natives)
  { s with natives, libraries := s.libraries.push l }

end Arena

/-- A change of an arena. What was changed before an error remains. -/
abbrev Change := EStateM ScopeError Arena

def push (kind : ScopeKind) (name : String) (parent : Option Nat) : Change Nat := do
  let s ← get
  set (s.addScope { kind, name, parent })
  return s.scopes.size

/-- Claims a name for a declaration. Only routines share one. -/
def claim (scope : Nat) (name : String) (kind : Kind) (pos : Position) : Change Unit := do
  let s ← get
  match (s.scope scope).declared (Text.lower name) with
  | some (previousKind, previous) =>
    if kind = .routine ∧ previousKind = .routine then return ()
    else throw (.namingConflict name kind.describe pos previousKind.describe previous)
  | none =>
    set (s.modifyScope scope fun c => { c with declared := c.declared.insert (Text.lower name) (kind, pos) })

def declareVariable (scope : Nat) (v : Variable) : Change VarRef := do
  claim scope v.name .var v.pos
  modify fun s => s.modifyScope scope fun c =>
    { c with
      places := c.places.insert (Text.lower v.name) c.vars.length
      vars := c.vars ++ [v] }
  return ⟨scope, Text.lower v.name⟩

def declareConstant (scope : Nat) (x : Constant) : Change Unit := do
  claim scope x.name .constant x.pos
  modify fun s => s.modifyScope scope fun c =>
    { c with constants := c.constants.insert (Text.lower x.name) x }

def declareType (scope : Nat) (name : String) (ty : Ty) (pos : Position) : Change Unit := do
  claim scope name .type pos
  modify fun s => s.modifyScope scope fun c => { c with types := c.types.insert (Text.lower name) ty }

/-- The routine of the program among some with the parameters of a signature. -/
def withParameters (s : Arena) (signature : Signature) (callees : List Callee) : Option Nat :=
  callees.findSome? fun
    | .user id => if (s.function id).signature.sameParameters signature then some id else none
    | .native _ => none

/-- Declares the header of a routine. A header like an earlier one without a body denotes the earlier
routine; any other one is a new routine. The name is claimed before the earlier ones are looked at. -/
def declareFunction (declaredIn : Nat) (name : String) (signature : Signature) (pos : Position) :
    Change Nat := do
  if let some p := Pascal.Arena.misplaced? signature then
    throw (.misplacedVarargs p.name pos)
  claim declaredIn name .routine pos
  let s ← get
  match withParameters s signature (((s.scope declaredIn).routines (Text.lower name)).getD []) with
  | some id =>
    if (s.function id).body.isSome then throw (.duplicateBody name pos (s.function id).pos)
    if !Pascal.Arena.sameResult (s.function id).signature.result signature.result then
      throw (.namingConflict name "Routine" pos "Routine" (s.function id).pos)
    return id
  | none =>
    let id := s.functions.size
    modify fun s => s.addFunction declaredIn name signature pos
    modify fun s => s.modifyScope declaredIn fun c =>
      { c with routines := c.routines.append (Text.lower name) (.user id) }
    return id

def setBody (id : Nat) (body : Stmt) : Change Unit :=
  modify fun s => { s with functions := s.functions.modify id fun f => { f with body := some body } }

def addLibrary (name : String) (routines : List Routine) : Change Nat := do
  let s ← get
  set (s.addLibrary name routines)
  return s.libraries.size

def addLibraryConstant (library : Nat) (x : Constant) : Change Unit :=
  modify fun s => s.modifyLibrary library fun l =>
    { l with constants := l.constants.insert (Text.lower x.name) x }

def addLibraryType (library : Nat) (name : String) (ty : Ty) : Change Unit :=
  modify fun s => s.modifyLibrary library fun l =>
    { l with types := l.types.insert (Text.lower name) ty }

def addImport (scope : Nat) (i : Import) : Change Unit :=
  modify fun s => s.modifyScope scope fun c =>
    if c.imports.contains i then c else { c with imports := c.imports ++ [i] }

end Pascal.Tabled

namespace Pascal

/-- What can be done with an arena. -/
inductive Operation where
  | push (kind : ScopeKind) (name : String) (parent : Option Nat)
  | declareVariable (scope : Nat) (v : Variable)
  | declareConstant (scope : Nat) (c : Constant)
  | declareType (scope : Nat) (name : String) (ty : Ty) (pos : Position)
  | declareFunction (declaredIn : Nat) (name : String) (signature : Signature) (pos : Position)
  | setBody (id : Nat) (body : Stmt)
  | addLibrary (name : String) (routines : List Routine)
  | addLibraryConstant (library : Nat) (c : Constant)
  | addLibraryType (library : Nat) (name : String) (ty : Ty)
  | addImport (scope : Nat) (i : Import)

namespace Operation

/-- What an operation answers. -/
inductive Answer where
  | done
  | number (n : Nat)
  | var (v : VarRef)
deriving DecidableEq

/-- What an operation does with an arena in tables. -/
def perform : Operation → Tabled.Change Answer
  | push kind name parent => .number <$> Tabled.push kind name parent
  | declareVariable scope v => .var <$> Tabled.declareVariable scope v
  | declareConstant scope c => (fun _ => .done) <$> Tabled.declareConstant scope c
  | declareType scope name ty pos => (fun _ => .done) <$> Tabled.declareType scope name ty pos
  | declareFunction declaredIn name signature pos =>
    .number <$> Tabled.declareFunction declaredIn name signature pos
  | setBody id body => (fun _ => .done) <$> Tabled.setBody id body
  | addLibrary name routines => .number <$> Tabled.addLibrary name routines
  | addLibraryConstant library c => (fun _ => .done) <$> Tabled.addLibraryConstant library c
  | addLibraryType library name ty => (fun _ => .done) <$> Tabled.addLibraryType library name ty
  | addImport scope i => (fun _ => .done) <$> Tabled.addImport scope i

/-- What it does with an arena. -/
def run (a : Arena) : Operation → Except ScopeError (Answer × Arena)
  | push kind name parent => return (a.push kind name parent).map .number id
  | declareVariable scope v => do return (← a.declareVariable scope v).map .var id
  | declareConstant scope c => do return (.done, ← a.declareConstant scope c)
  | declareType scope name ty pos => do return (.done, ← a.declareType scope name ty pos)
  | declareFunction declaredIn name signature pos => do
    return (← a.declareFunction declaredIn name signature pos).map .number id
  | setBody id body => return (.done, a.modifyFunction id fun f => { f with body := some body })
  | addLibrary name routines => return (a.addLibrary name routines).map .number id
  | addLibraryConstant library c => return (.done, a.addLibraryConstant library c)
  | addLibraryType library name ty => return (.done, a.addLibraryType library name ty)
  | addImport scope i => return (.done, a.addImport scope i)

/-- An operation is about scopes, routines and libraries that there are. -/
def Fits (s : Tabled.Arena) : Operation → Prop
  | push _ _ parent => ∀ p ∈ parent, p < s.scopes.size
  | declareVariable scope _ | declareConstant scope _ | declareType scope _ _ _
  | declareFunction scope _ _ _ | addImport scope _ => scope < s.scopes.size
  | setBody id _ => id < s.functions.size
  | addLibrary _ _ => True
  | addLibraryConstant library _ | addLibraryType library _ _ => library < s.libraries.size

end Operation

/-- The arena in tables that an operation leaves behind, whether it fails or not. -/
def Tabled.Arena.after (s : Tabled.Arena) (op : Operation) : Tabled.Arena :=
  match op.perform.run s with
  | .ok _ s' | .error _ s' => s'

/-- The arena that an operation leaves behind. One that fails changes nothing. -/
def Arena.afterOperation (a : Arena) (op : Operation) : Arena :=
  match op.run a with
  | .ok (_, a') => a'
  | .error _ => a

namespace Operation

instance (s : Tabled.Arena) : (op : Operation) → Decidable (op.Fits s)
  | push _ _ parent => inferInstanceAs (Decidable (∀ p ∈ parent, p < s.scopes.size))
  | declareVariable scope _ | declareConstant scope _ | declareType scope _ _ _
  | declareFunction scope _ _ _ | addImport scope _ =>
    inferInstanceAs (Decidable (scope < s.scopes.size))
  | setBody id _ => inferInstanceAs (Decidable (id < s.functions.size))
  | addLibrary _ _ => inferInstanceAs (Decidable True)
  | addLibraryConstant library _ | addLibraryType library _ _ =>
    inferInstanceAs (Decidable (library < s.libraries.size))

/-- All operations of a sequence are about scopes, routines and libraries that there are by then. -/
def AllFit : List Operation → Tabled.Arena → Prop
  | [], _ => True
  | op :: ops, s => op.Fits s ∧ AllFit ops (s.after op)

instance : (ops : List Operation) → (s : Tabled.Arena) → Decidable (AllFit ops s)
  | [], _ => inferInstanceAs (Decidable True)
  | op :: ops, s =>
    have : Decidable (AllFit ops (s.after op)) := instDecidableAllFit ops (s.after op)
    inferInstanceAs (Decidable (op.Fits s ∧ AllFit ops (s.after op)))

end Operation

end Pascal
