import Pascal.Group.Assemble
import Pascal.Parse.Declaration
import Pascal.Program

/-! # From source texts to programs

The main program and the units that it uses are read in one go: a unit is loaded where it is first
used. A unit that is being loaded cannot be used, so that no unit depends on itself. -/

namespace Pascal

/-- What a source text is compiled with. -/
structure Toolchain where
  sources : Sources
  libraries : List Library
  /-- Whether constant expressions are folded. -/
  folds : Bool := true

inductive UnitState where
  | loading
  | loaded (scope : Nat)
deriving DecidableEq, Repr

/-- What is known at some point of the way through the source texts. -/
structure Session where
  arena : Arena := {}
  /-- The units met so far, by names in lower case, the last one first. -/
  units : List (String × UnitState) := []
  /-- The units loaded so far, the last one first. -/
  code : List UnitCode := []

namespace Session

def mark (s : Session) (key : String) (state : UnitState) : Session :=
  { s with units := (key, state) :: s.units }

def unitState? (s : Session) (key : String) : Option UnitState :=
  (s.units.find? (·.1 == key)).map (·.2)

/-- Makes a library of the toolchain known, and gives its number. -/
def library? (t : Toolchain) (name : String) (s : Session) : Option (Nat × Session) :=
  match s.arena.libraryNamed? name with
  | some id => some (id, s)
  | none => do
    let l ← Library.find? t.libraries name
    let (id, a) := s.arena.addLibrary l.name l.routines
    let start := Position.start l.name
    let a := l.constants.foldl (fun a (name, v, ty) => a.addLibraryConstant id ⟨name, v, ty, start⟩) a
    let a := l.types.foldl (fun a (name, ty) => a.addLibraryType id name ty) a
    return (id, { s with arena := a })

def addImport (s : Session) (scope : Nat) (i : Import) : Session :=
  { s with arena := s.arena.addImport scope i }

/-- Makes the routines that need no `uses` visible in a scope. -/
def importSystem (t : Toolchain) (scope : Nat) (s : Session) : Session :=
  match s.library? t "system" with
  | some (id, s) => s.addImport scope (.library id)
  | none => s

/-- A new scope outside of all others. -/
def open_ (t : Toolchain) (kind : ScopeKind) (name : String) (s : Session) : Nat × Session :=
  let (scope, a) := s.arena.push kind name none
  (scope, importSystem t scope { s with arena := a })

end Session

/-- Loads a unit that is used at some place, and gives its scope. -/
abbrev UnitLoader := String → Position → Session → Checked (Nat × Session)

namespace Parser

/-- One name behind `uses`: a library, or else a unit. -/
def usedName (t : Toolchain) (load : UnitLoader) (scope : Nat) (s : Session) : Parser Session := do
  let (name, p) ← identifier
  match s.library? t name with
  | some (id, s) => return s.addImport scope (.library id)
  | none =>
    let (unit, s) ← check (load name p s)
    return s.addImport scope (.unit unit)

/-- What a scope uses. -/
def uses (t : Toolchain) (load : UnitLoader) (scope : Nat) (s : Session) : Parser Session := do
  if !(← eatKeyword .uses) then return s
  let s ← usedName t load scope s
  let s ← iterate (fun s => do
    if !(← eatSymbol .comma) then return none
    some <$> usedName t load scope s) s
  expectSymbol .semicolon
  return s

/-- The declarations of a scope as a step of a session. -/
def declare (scope : Nat) (part : Section) (s : Session) : Parser Session := do
  return { s with arena := ← declarations scope part s.arena }

/-- What stands in front of the declarations of a program. -/
def programHeading : Parser Unit := do
  if ← eatKeyword .program then
    let _ ← identifier
    let _ ← group? .paren
    expectSymbol .semicolon

/-- A whole program. -/
def program (t : Toolchain) (load : UnitLoader) (scope : Nat) (s : Session) :
    Parser (Stmt × Session) := do
  programHeading
  let s ← uses t load scope s
  let s ← declare scope .definitions s
  let body ← block (statement { arena := s.arena, scope }) (← group .begin_)
  expectSymbol .dot
  done
  return (body, s)

/-- The statements of a unit behind a keyword, if it has such a part. -/
def unitPart (ctx : Context) (w : Keyword) (stop : Token.Kind → Bool) : Parser (Option Stmt) := do
  if !(← eatKeyword w) then return none
  let p ← pos
  return some (.block (← statements (statement ctx) stop) p)

/-- What a unit holds: its interface, its implementation, and what it does at the start and at the
end. -/
def unitBody (t : Toolchain) (load : UnitLoader) (scope : Nat) (s : Session) :
    Parser (Option Stmt × Option Stmt × Session) := do
  let _ ← identifier
  expectSymbol .semicolon
  expectKeyword .interface
  let s ← uses t load scope s
  let s ← declare scope .interface s
  expectKeyword .implementation
  let s ← uses t load scope s
  let s ← declare scope .definitions s
  let ctx : Context := { arena := s.arena, scope }
  let initialization ← unitPart ctx .initialization (·.isKeyword .finalization)
  let finalization ← unitPart ctx .finalization (fun _ => false)
  return (initialization, finalization, s)

/-- The group of a unit, and nothing else but the period behind it. -/
def unitGroup : Parser Group := do
  let g ← group .unit
  expectSymbol .dot
  done
  return g

end Parser

/-- Reads a source text, in which nothing may be wrong with the nesting in the end. -/
def Group.parse {α : Type} (g : Group) (p : Parser α) : Checked α := do
  let (a, _) ← p (.ofGroup g)
  match g.errors with
  | [] => return a
  | e :: _ => throw (.group e)

namespace Toolchain

/-- The source text of a unit. The file may be named as the unit is written or in lower case. -/
def unitSource (t : Toolchain) (name : String) (pos : Position) : Checked String :=
  let key := Text.lower name
  match (t.sources.load (name ++ ".pas")).or (t.sources.load (key ++ ".pas")) with
  | none => .error (.scope (.libraryNotFound name pos))
  | some (.error e) => .error (.scope (.libraryUnreadable name e.message pos))
  | some (.ok source) => .ok source

/-- Compiles the source text of a unit into a scope of its own. -/
def compileUnit (t : Toolchain) (load : UnitLoader) (source name : String) (s : Session) :
    Checked (Nat × Session) :=
  let (scope, s) := s.open_ t .unit name
  (Group.assemble t.sources name source).parse do
    let g ← Parser.unitGroup
    let (initialization, finalization, s) ← Parser.inside g (Parser.unitBody t load scope s)
    let unit : UnitCode := { name, scope, initialization, finalization }
    return (scope, { s with code := unit :: s.code })

/-- Loads a unit unless that is done or going on. At most `depth` units are loaded inside one
another. -/
def loadWithin (t : Toolchain) : Nat → UnitLoader
  | 0, name, pos, _ => .error (.scope (.circularUnit name pos))
  | depth + 1, name, pos, s =>
    let key := Text.lower name
    match s.unitState? key with
    | some (.loaded scope) => .ok (scope, s)
    | some .loading => .error (.scope (.circularUnit name pos))
    | none => do
      let source ← t.unitSource name pos
      let (scope, s) ← t.compileUnit (t.loadWithin depth) source name (s.mark key .loading)
      return (scope, s.mark key (.loaded scope))

/-- Loads a unit. Units that are loaded inside one another come from different files, so that there
are no more of them than files. -/
def load (t : Toolchain) : UnitLoader := t.loadWithin (t.sources.disk.entries.length + 1)

/-- Compiles a program that is not folded yet. -/
def compilePlain (t : Toolchain) (unit source : String) : Checked Program := do
  let (main, s) := Session.open_ t .program unit {}
  let (body, s) ← (Group.assemble t.sources unit source).parse (Parser.program t t.load main s)
  match s.arena.missingBodies with
  | f :: _ => throw (.scope (.missingBody f.name f.pos))
  | [] => return { arena := s.arena, main, body, units := s.code.reverse }

/-- The program with its constant expressions folded, where that is asked for. -/
def folded (t : Toolchain) (p : Program) : Checked Program :=
  if t.folds then
    match p.fold? with
    | some p => .ok p
    | none => .error (.crash p.body.pos)
  else .ok p

/-- Compiles the source text of a program. -/
def compile (t : Toolchain) (unit source : String) : Checked Program := do
  t.folded (← t.compilePlain unit source)

end Toolchain

end Pascal
