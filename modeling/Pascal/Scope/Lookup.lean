import Pascal.Scope

/-! # Looking up names

A name is looked for in a scope, then in what the scope imports, then in the scope around it, and so
on. Routines that need arguments do not hide a constant or a variable when the name stands alone. -/

namespace Pascal

/-- What a name stands for. -/
inductive Meaning where
  | routines (callees : List Callee)
  | constant (c : Constant)
  | var (v : VarRef) (ty : Ty)

namespace Arena

/-- The scopes from `scope` outwards. A scope is made after the one around it, so `fuel` as large as
the number of scopes reaches them all. -/
def chainWithin (a : Arena) : Nat → Nat → List Nat
  | 0, _ => []
  | fuel + 1, scope =>
    scope :: match (a.scope scope).parent with
      | some parent => a.chainWithin fuel parent
      | none => []

def chain (a : Arena) (scope : Nat) : List Nat := a.chainWithin (a.scopes.size + 1) scope

def addNew (callees extra : List Callee) : List Callee :=
  extra.foldl (fun cs c => if cs.contains c then cs else cs ++ [c]) callees

/-- The routines of a name that one import offers. -/
def importRoutines (a : Arena) (key : String) : Import → List Callee
  | .library id => ((a.library id).named key).map Callee.native
  | .unit scope => (((a.scope scope).routines? key).getD []).map Callee.user

/-- The routines of a name that a scope imports. -/
def importedRoutines (a : Arena) (scope : Nat) (key : String) : List Callee :=
  (a.scope scope).imports.flatMap (a.importRoutines key)

def withImported (a : Arena) (scope : Nat) (key : String) (callees : List Callee) :
    List Callee :=
  addNew callees (a.importedRoutines scope key)

/-- Whether one of the routines can be called without arguments. -/
def callableBare (a : Arena) (callees : List Callee) : Bool :=
  callees.any fun c => ((a.signature c).match? []).isSome

/-- What a name means in one import of a scope. -/
def importMeaning? (a : Arena) (scope : Nat) (key : String) : Import → Option Meaning
  | .library id =>
    let l := a.library id
    match l.named key with
    | [] => (l.constants.find? (·.1 == key)).map fun (_, c) => .constant c
    | ids => some (.routines (a.withImported scope key (ids.map Callee.native)))
  | .unit unit =>
    let s := a.scope unit
    match s.entity? key with
    | some (.routines ids) => some (.routines (a.withImported scope key (ids.map Callee.user)))
    | some (.constant c) => some (.constant c)
    | some (.var v) => some (.var ⟨unit, key⟩ v.ty)
    | some (.type _) | none => none

/-- What a name means through the imports of a scope: the first import that knows it decides. -/
def importedMeaning? (a : Arena) (scope : Nat) (key : String) : Option Meaning :=
  (a.scope scope).imports.findSome? (a.importMeaning? scope key)

/-- What a name means among the declarations of a scope. -/
def declaredMeaning? (a : Arena) (scope : Nat) (key : String) : Option Meaning :=
  match (a.scope scope).entity? key with
  | some (.routines ids) => some (.routines (a.withImported scope key (ids.map Callee.user)))
  | some (.constant c) => some (.constant c)
  | some (.var v) => some (.var ⟨scope, key⟩ v.ty)
  | some (.type _) | none => none

/-- The first meaning that is not a group of routines that all need arguments; failing that, the first
group of routines. -/
def prefer (a : Arena) : Option (List Callee) → List Meaning → Option Meaning
  | nearest, [] => nearest.map .routines
  | nearest, .routines callees :: rest =>
    if a.callableBare callees then some (.routines callees)
    else prefer a (some (nearest.getD callees)) rest
  | _, m :: _ => some m

/-- All meanings of a name from a scope outwards. -/
def meanings (a : Arena) (scope : Nat) (key : String) : List Meaning :=
  (a.chain scope).flatMap fun s =>
    (a.declaredMeaning? s key).toList ++ (a.importedMeaning? s key).toList

/-- What a name means when it stands alone. -/
def lookup? (a : Arena) (scope : Nat) (name : String) : Option Meaning :=
  a.prefer none (a.meanings scope (Text.lower name))

/-- The routines of a name, level by level from a scope outwards. -/
def candidateLevels (a : Arena) (scope : Nat) (name : String) : List (List Callee) :=
  let key := Text.lower name
  (a.chain scope).filterMap fun s =>
    let own := (((a.scope s).routines? key).getD []).map Callee.user
    match a.withImported s key own with
    | [] => none
    | callees => some callees

/-- What a name means in front of arguments: the routines of the nearest level that has some. -/
def lookupRoutine? (a : Arena) (scope : Nat) (name : String) : Option Meaning :=
  (a.candidateLevels scope name).head?.map .routines

def importType? (a : Arena) (key : String) : Import → Option Ty
  | .library id => ((a.library id).types.find? (·.1 == key)).map (·.2)
  | .unit scope => (a.scope scope).type? key

/-- The type that a name is declared or imported as. -/
def lookupType? (a : Arena) (scope : Nat) (name : String) : Option Ty :=
  let key := Text.lower name
  (a.chain scope).findSome? fun s =>
    ((a.scope s).type? key).or ((a.scope s).imports.findSome? (a.importType? key))

end Arena

end Pascal
