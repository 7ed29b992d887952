import Pascal.Proofs.Caseless.Declaration
import Pascal.Proofs.Program.Single

/-!
# Programs without regard to case

Libraries are made known and found under names in lower case, so that a program in lower case uses and
declares what the program does.
-/

namespace Pascal

open Text

/-- The library with the names of its constants, and of the parameters of its routines, in lower case. -/
def Library.lowered (l : Library) : Library :=
  { l with
    routines := l.routines.map Routine.lowered
    constants := l.constants.map (Prod.map lower id) }

def Toolchain.lowered (t : Toolchain) : Toolchain := { t with libraries := t.libraries.map Library.lowered }

def UnitCode.lowered (u : UnitCode) : UnitCode :=
  { u with
    initialization := u.initialization.map Stmt.lowered
    finalization := u.finalization.map Stmt.lowered }

def Session.lowered (s : Session) : Session :=
  { s with arena := s.arena.lowered, code := s.code.map UnitCode.lowered }

def Program.lowered (p : Program) : Program :=
  { p with arena := p.arena.lowered, body := p.body.lowered, units := p.units.map UnitCode.lowered }

theorem Library.find?_lowered (libraries : List Library) (name : String) :
    find? (libraries.map lowered) (lower name) = (find? libraries name).map lowered := by
  have hname : (fun l : Library => sameName l.name (lower name)) ∘ lowered =
      fun l => sameName l.name name := by
    funext l
    rw [Function.comp_apply, sameName, sameName, lower_lower]
    rfl
  rw [find?, List.find?_map, hname]
  rfl

namespace Arena

variable (a : Arena)

theorem libraryNamed?_lowered (name : String) :
    a.lowered.libraryNamed? (lower name) = a.libraryNamed? name := by
  rw [libraryNamed?, lowered, Array.findIdx?_map, lower_lower]
  rfl

theorem addLibrary_lowered (name : String) (routines : List Routine) :
    a.lowered.addLibrary name (routines.map Routine.lowered) =
      Prod.map id lowered (a.addLibrary name routines) := by
  simp [addLibrary, lowered, LibraryScope.lowered, List.zipIdx_map, Function.comp_def, Routine.lowered]

theorem addLibraryConstant_lowered (library : Nat) (c : Constant) :
    a.lowered.addLibraryConstant library c.lowered = (a.addLibraryConstant library c).lowered := by
  simp only [addLibraryConstant, lowered, Constant.lowered, lower_lower]
  rw [map_modify _ library fun l => ?_]
  simp [LibraryScope.lowered, Constant.lowered]

theorem addLibraryType_lowered (library : Nat) (name : String) (ty : Ty) :
    a.lowered.addLibraryType library name ty = (a.addLibraryType library name ty).lowered := by
  simp only [addLibraryType, lowered]
  rw [map_modify _ library fun l => ?_]
  rfl

theorem withLibrary_lowered (l : Library) :
    a.lowered.withLibrary l.lowered = (a.withLibrary l).lowered := by
  have hlibrary : a.lowered.addLibrary l.lowered.name l.lowered.routines = _ :=
    a.addLibrary_lowered l.name l.routines
  have hconstants : l.lowered.constants = l.constants.map (Prod.map lower id) := rfl
  rw [withLibrary, hlibrary, withLibrary]
  dsimp only [Prod.map]
  rw [hconstants, List.foldl_map]
  rw [List.foldl_hom lowered fun a c => (a.addLibraryConstant_lowered _ ⟨c.1, c.2.1, c.2.2, _⟩)]
  exact List.foldl_hom lowered fun a ty => (a.addLibraryType_lowered _ ty.1 ty.2)

theorem addImport_lowered (scope : Nat) (i : Import) :
    a.lowered.addImport scope i = (a.addImport scope i).lowered := by
  refine (modifyScope_lowered a scope fun s => ?_).symm
  split <;> simp_all [Scope.lowered]

end Arena

namespace Session

variable (t : Toolchain) (s : Session)

theorem library?_lowered (name : String) : s.lowered.library? t.lowered (lower name) =
    (s.library? t name).map (Prod.map id lowered) := by
  have hnamed : s.lowered.arena.libraryNamed? (lower name) = s.arena.libraryNamed? name :=
    s.arena.libraryNamed?_lowered name
  unfold library?
  rw [hnamed]
  cases s.arena.libraryNamed? name with
  | some id => rfl
  | none =>
    dsimp only [Toolchain.lowered]
    rw [Library.find?_lowered]
    cases Library.find? t.libraries name with
    | none => rfl
    | some l =>
      have hsize : s.lowered.arena.libraries.size = s.arena.libraries.size := Array.size_map
      change some (s.lowered.arena.libraries.size,
          { s.lowered with arena := s.lowered.arena.withLibrary l.lowered }) =
        some (s.arena.libraries.size, lowered { s with arena := s.arena.withLibrary l })
      rw [hsize]
      exact congrArg (fun a => some (_, { s.lowered with arena := a })) (s.arena.withLibrary_lowered l)

theorem addImport_lowered (scope : Nat) (i : Import) :
    s.lowered.addImport scope i = (s.addImport scope i).lowered :=
  congrArg (fun a => { s.lowered with arena := a }) (s.arena.addImport_lowered scope i)

end Session

namespace Parser.Matches

variable {t : Toolchain} {load load' : UnitLoader}
  (hload : ∀ name pos (s : Session),
    Checked.Matches (Prod.map id Session.lowered) (load name pos s) (load' (lower name) pos s.lowered))

include hload

theorem usedName (scope : Nat) (s : Session) :
    Matches Session.lowered (Parser.usedName t load scope s)
      (Parser.usedName t.lowered load' scope s.lowered) := by
  refine identifier.bind fun found => ?_
  obtain ⟨name, p⟩ := found
  dsimp only [Prod.map, id_eq]
  rw [Session.library?_lowered]
  cases s.library? t name with
  | some found => exact pure_of_eq _ (Session.addImport_lowered _ _ _)
  | none =>
    refine (check (hload name p s)).bind fun found => ?_
    exact pure_of_eq _ (Session.addImport_lowered _ _ _)

theorem uses (scope : Nat) (s : Session) :
    Matches Session.lowered (Parser.uses t load scope s) (Parser.uses t.lowered load' scope s.lowered) := by
  refine (eatKeyword .uses).bind_id fun b => ?_
  cases b with
  | false => exact pure s
  | true =>
    refine (usedName hload scope s).bind fun s => ?_
    refine Matches.bind (f := Session.lowered) (iterate (fun s => ?_) s) fun s => ?_
    · refine (eatSymbol .comma).bind_id fun b => ?_
      cases b with
      | false => exact pure none
      | true => exact (usedName hload scope s).map fun _ => rfl
    · exact (expectSymbol .semicolon).bind_id fun _ => pure s

omit hload in
theorem declare (scope : Nat) (part : Section) (s : Session) :
    Matches Session.lowered (Parser.declare scope part s) (Parser.declare scope part s.lowered) :=
  (declarations scope part s.arena).bind fun a => pure { s with arena := a }

omit hload in
theorem programHeading : Matches id Parser.programHeading Parser.programHeading := by
  refine (eatKeyword .program).bind_id fun b => ?_
  cases b with
  | false => exact pure ()
  | true => exact identifier.bind fun _ => (group? .paren).bind fun _ => expectSymbol .semicolon

/-- A whole program. -/
theorem program (scope : Nat) (s : Session) :
    Matches (Prod.map Stmt.lowered Session.lowered) (Parser.program t load scope s)
      (Parser.program t.lowered load' scope s.lowered) := by
  refine programHeading.bind_id fun _ => (uses hload scope s).bind fun s => ?_
  refine (declare scope .definitions s).bind fun s => (group .begin_).bind fun g => ?_
  refine ((statement { arena := s.arena, scope }).block g).bind fun body => ?_
  exact (expectSymbol .dot).bind_id fun _ => done.bind_id fun _ => pure (body, s)

omit hload in
/-- What is read of a group, in which nothing may be wrong with the nesting. -/
theorem parse {α β : Type} {f : α → β} {p : Parser α} {q : Parser β} (h : Matches f p q) (g : Group) :
    Checked.Matches f (g.parse p) (g.lowered.parse q) := by
  have herrors : g.lowered.errors = g.errors.map GroupError.outline := by
    rw [Group.errors, Group.lowered, List.filterMap_map, Group.errors, List.map_filterMap]
    refine List.filterMap_congr fun i _ => ?_
    cases i <;> simp
  refine (h (.ofGroup g)).bind fun r => ?_
  rw [herrors]
  cases g.errors with
  | nil => exact .ok r.1
  | cons e es =>
    refine .error (congrArg CompileError.group ?_)
    cases e with
    | lex e => obtain ⟨cause, pos⟩ := e; cases cause <;> rfl
    | _ => rfl

end Parser.Matches

theorem Program.fold_lowered (p : Program) : p.lowered.fold = p.fold.lowered := by
  simp [fold, lowered, Arena.lowered, UserRoutine.lowered, UnitCode.lowered, Stmt.fold_lowered,
    Function.comp_def]

theorem Program.fold?_lowered (p : Program) : p.lowered.fold? = p.fold?.map lowered := by
  have hends : p.lowered.foldEnds = p.foldEnds := by
    simp [foldEnds, lowered, Arena.lowered, UserRoutine.lowered, UnitCode.lowered,
      Stmt.foldEnds_lowered, Function.comp_def, Option.all_map]
  unfold fold?
  rw [hends, fold_lowered]
  split <;> rfl

end Pascal
