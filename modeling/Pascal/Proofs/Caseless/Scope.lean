import Pascal.Parse.Declaration
import Pascal.Proofs.Caseless.Typing
import Pascal.Proofs.Program.Files

/-!
# Scopes without regard to case

Names are declared and looked up in lower case. So an arena whose names are put in lower case declares
and finds under a name in lower case what the arena does under the name.
-/

namespace Pascal

open Text

def Variable.lowered (v : Variable) : Variable := { v with name := lower v.name }

def Constant.lowered (c : Constant) : Constant := { c with name := lower c.name }

def Parameter.lowered (p : Parameter) : Parameter := { p with name := lower p.name }

def Signature.lowered (s : Signature) : Signature := { s with params := s.params.map Parameter.lowered }

/-- The routine with the names of its parameters in lower case. -/
def Routine.lowered (r : Routine) : Routine := { r with signature := r.signature.lowered }

def Entity.lowered : Entity → Entity
  | routines ids => routines ids
  | constant c => constant c.lowered
  | var v => var v.lowered
  | type ty => type ty

def Declaration.lowered (d : Declaration) : Declaration := { d with entity := d.entity.lowered }

def Scope.lowered (s : Scope) : Scope :=
  { s with name := lower s.name, declared := s.declared.map Declaration.lowered }

def UserRoutine.lowered (f : UserRoutine) : UserRoutine :=
  { f with name := lower f.name, signature := f.signature.lowered, body := f.body.map Stmt.lowered }

def LibraryScope.lowered (l : LibraryScope) : LibraryScope :=
  { l with constants := l.constants.map (Prod.map id Constant.lowered) }

def Meaning.lowered : Meaning → Meaning
  | routines callees => routines callees
  | constant c => constant c.lowered
  | var v ty => var v ty

namespace Signature

variable (s : Signature)

@[simp] theorem result_lowered : s.lowered.result = s.result := rfl

theorem split_lowered : s.lowered.split = (s.split.1.map Parameter.lowered, s.split.2) := by
  unfold split
  rw [lowered, List.getLast?_map]
  cases s.params.getLast? with
  | none => rfl
  | some p =>
    obtain ⟨name, ty, mode⟩ := p
    cases ty with
    | varargs element => exact Prod.ext List.map_dropLast.symm rfl
    | _ => rfl

theorem bindAll_lowered (further : Option (Ty × ParamMode)) (params : List Parameter)
    (args : List Shape) : bindAll further (params.map Parameter.lowered) args =
      bindAll further params args := by
  induction params generalizing args with
  | nil => rfl
  | cons p params ih =>
    cases args with
    | nil => rfl
    | cons arg args =>
      rw [List.map_cons, bindAll, bindAll, ih]
      rfl

@[simp] theorem match?_lowered (args : List Shape) : s.lowered.match? args = s.match? args := by
  unfold match?
  rw [split_lowered]
  dsimp only
  rw [bindAll_lowered]

theorem sameParameters_lowered (t : Signature) :
    s.lowered.sameParameters t.lowered = s.sameParameters t := by
  simp only [sameParameters, lowered, List.length_map, List.zip_map, List.all_map]
  rfl

/-- The choice between routines does not depend on the names of their parameters. -/
theorem choose_lowered {α : Type} (candidates : List (α × Signature)) (args : List Shape) :
    choose (candidates.map (Prod.map id lowered)) args = choose candidates args := by
  simp only [choose, List.filterMap_map, Function.comp_def, Prod.map_fst, Prod.map_snd, match?_lowered, id_eq]

end Signature

namespace Scope

variable (s : Scope) (key : String)

theorem find?_lowered : s.lowered.find? key = (s.find? key).map Declaration.lowered := by
  rw [find?, lowered, List.find?_map]
  rfl

theorem entity?_lowered : s.lowered.entity? key = (s.entity? key).map Entity.lowered := by
  rw [entity?, find?_lowered, entity?, Option.map_map, Option.map_map]
  rfl

@[simp] theorem routines?_lowered : s.lowered.routines? key = s.routines? key := by
  rw [routines?, entity?_lowered, routines?]
  cases s.entity? key with
  | none => rfl
  | some e => cases e <;> rfl

@[simp] theorem type?_lowered : s.lowered.type? key = s.type? key := by
  rw [type?, entity?_lowered, type?]
  cases s.entity? key with
  | none => rfl
  | some e => cases e <;> rfl

theorem vars_lowered : s.lowered.vars = s.vars.map Variable.lowered := by
  rw [vars, lowered, List.filterMap_map, vars, List.map_filterMap]
  refine List.filterMap_congr fun d _ => ?_
  obtain ⟨name, pos, entity⟩ := d
  cases entity <;> rfl

end Scope

/-- Changing one element before or after all of them are mapped. -/
theorem map_modify {α : Type} {h f g : α → α} (xs : Array α) (i : Nat)
    (hfg : ∀ x, h (f x) = g (h x)) : (xs.modify i f).map h = (xs.map h).modify i g := by
  apply Array.ext
  · simp
  · intro j hj hj'
    simp only [Array.getElem_map, Array.getElem_modify]
    split
    · exact hfg _
    · rfl

namespace Arena

def lowered (a : Arena) : Arena where
  scopes := a.scopes.map Scope.lowered
  functions := a.functions.map UserRoutine.lowered
  natives := a.natives.map Routine.lowered
  libraries := a.libraries.map LibraryScope.lowered

variable (a : Arena)

@[simp] theorem scope_lowered (id : Nat) : a.lowered.scope id = (a.scope id).lowered := by
  rw [scope, lowered, Array.getElem?_map, scope]
  cases a.scopes[id]? <;> rfl

@[simp] theorem function_lowered (id : Nat) : a.lowered.function id = (a.function id).lowered := by
  rw [function, lowered, Array.getElem?_map, function]
  cases a.functions[id]? <;> rfl

@[simp] theorem library_lowered (id : Nat) : a.lowered.library id = (a.library id).lowered := by
  rw [library, lowered, Array.getElem?_map, library]
  cases a.libraries[id]? <;> rfl

@[simp] theorem signature_lowered (c : Callee) : a.lowered.signature c = (a.signature c).lowered := by
  cases c with
  | user id => rw [signature, function_lowered]; rfl
  | native id =>
    rw [signature, lowered, Array.getElem?_map, signature]
    cases a.natives[id]? <;> rfl

@[simp] theorem calleeName_lowered (c : Callee) : a.lowered.calleeName c = c.lowered (a.calleeName c) := by
  cases c with
  | user id => rw [calleeName, function_lowered]; rfl
  | native id =>
    rw [calleeName, lowered, Array.getElem?_map, calleeName]
    cases a.natives[id]? <;> rfl

@[simp] theorem functionOf?_lowered (id : Nat) : a.lowered.functionOf? id = a.functionOf? id := by
  rw [functionOf?, scope_lowered]
  rfl

/-! ### Making scopes and declaring names -/

theorem modifyScope_lowered (id : Nat) {f g : Scope → Scope} (h : ∀ s, (f s).lowered = g s.lowered) :
    (a.modifyScope id f).lowered = a.lowered.modifyScope id g := by
  simp only [modifyScope, lowered, map_modify _ id h]

theorem modifyFunction_lowered (id : Nat) {f g : UserRoutine → UserRoutine}
    (h : ∀ r, (f r).lowered = g r.lowered) :
    (a.modifyFunction id f).lowered = a.lowered.modifyFunction id g := by
  simp only [modifyFunction, lowered, map_modify _ id h]

theorem declare_lowered (scope : Nat) (name : String) (pos : Position) (e : Entity) :
    Matches ScopeError.outline lowered (a.declare scope name pos e)
      (a.lowered.declare scope (lower name) pos e.lowered) := by
  unfold declare
  dsimp only
  rw [lower_lower, scope_lowered, Scope.find?_lowered]
  cases (a.scope scope).find? (lower name) with
  | none =>
    refine .of_eq _ (modifyScope_lowered a scope fun s => ?_).symm
    simp [Scope.lowered, Declaration.lowered]
  | some d =>
    obtain ⟨name', pos', e'⟩ := d
    cases e <;> cases e' <;> exact .error rfl

theorem declareVariable_lowered (scope : Nat) (v : Variable) :
    Matches ScopeError.outline (Prod.map id lowered) (a.declareVariable scope v)
      (a.lowered.declareVariable scope v.lowered) := by
  refine (a.declare_lowered scope v.name v.pos (.var v)).bind fun a => ?_
  exact Matches.of_eq ((⟨scope, lower v.name⟩, a) : VarRef × Arena) (by simp [Variable.lowered])

theorem declareConstant_lowered (scope : Nat) (c : Constant) :
    Matches ScopeError.outline lowered (a.declareConstant scope c)
      (a.lowered.declareConstant scope c.lowered) :=
  a.declare_lowered scope c.name c.pos (.constant c)

theorem declareType_lowered (scope : Nat) (name : String) (ty : Ty) (pos : Position) :
    Matches ScopeError.outline lowered (a.declareType scope name ty pos)
      (a.lowered.declareType scope (lower name) ty pos) :=
  a.declare_lowered scope name pos (.type ty)

theorem misplaced?_lowered (s : Signature) :
    misplaced? s.lowered = (misplaced? s).map Parameter.lowered := by
  have hindex : s.lowered.params.findIdx? (fun p => isVarargs p.ty) =
      s.params.findIdx? (fun p => isVarargs p.ty) := List.findIdx?_map
  unfold misplaced?
  rw [hindex]
  cases s.params.findIdx? (fun p => isVarargs p.ty) with
  | none => rfl
  | some i =>
    dsimp only
    rw [Signature.lowered, List.length_map, List.getElem?_map]
    split <;> rfl

theorem addFunction_lowered (declaredIn : Nat) (name : String) (s : Signature) (pos : Position) :
    a.lowered.addFunction declaredIn (lower name) s.lowered pos =
      ((a.addFunction declaredIn name s pos).1, (a.addFunction declaredIn name s pos).2.lowered) := by
  simp [addFunction, push, lowered, Scope.lowered, UserRoutine.lowered]

theorem declareFunction_lowered (declaredIn : Nat) (name : String) (s : Signature) (pos : Position) :
    Matches ScopeError.outline (Prod.map id lowered) (a.declareFunction declaredIn name s pos)
      (a.lowered.declareFunction declaredIn (lower name) s.lowered pos) := by
  unfold declareFunction
  dsimp only
  rw [misplaced?_lowered, lower_lower, scope_lowered, Scope.find?_lowered, addFunction_lowered]
  cases misplaced? s with
  | some p => exact .error rfl
  | none =>
    cases (a.scope declaredIn).find? (lower name) with
    | none =>
      obtain ⟨id, a⟩ := a.addFunction declaredIn name s pos
      exact (a.declare_lowered declaredIn name pos (.routines [id])).bind fun a => .ok (id, a)
    | some d =>
      obtain ⟨name', pos', e⟩ := d
      cases e with
      | routines ids =>
        have hsame : ids.find? (fun id => (a.lowered.function id).signature.sameParameters s.lowered) =
            ids.find? (fun id => (a.function id).signature.sameParameters s) := by
          congr 1
          funext id
          rw [function_lowered]
          exact Signature.sameParameters_lowered _ _
        dsimp only [Option.map_none, Option.map_some, Declaration.lowered, Entity.lowered]
        rw [hsame]
        cases ids.find? (fun id => (a.function id).signature.sameParameters s) with
        | none =>
          refine .of_eq _ (Prod.ext rfl (modifyScope_lowered _ declaredIn fun s => ?_).symm)
          simp only [Scope.lowered, List.map_map]
          congr 1
          refine List.map_congr_left fun d _ => ?_
          by_cases hname : d.name = lower name
          · simp [Declaration.lowered, Entity.lowered, hname]
          · simp [Declaration.lowered, hname]
        | some id =>
          have hbody : (a.function id).lowered.body.isSome = (a.function id).body.isSome :=
            Option.isSome_map
          have hresult : sameResult (a.function id).lowered.signature.result s.lowered.result =
              sameResult (a.function id).signature.result s.result := rfl
          dsimp only
          rw [function_lowered, hbody, hresult]
          split
          · exact .error rfl
          · split
            · exact .error rfl
            · exact .ok (id, a)
      | constant c => exact .error rfl
      | var v => exact .error rfl
      | type ty => exact .error rfl

theorem declareParameters_lowered (id : Nat) :
    Matches ScopeError.outline lowered (a.declareParameters id) (a.lowered.declareParameters id) := by
  have hdeclared : ∀ (scope : Nat) (pos : Position) (name : String) (ty : Ty) (a : Arena),
      Matches ScopeError.outline lowered
        (do return (← a.declareVariable scope ⟨name, ty, pos, none⟩).2)
        (do return (← a.lowered.declareVariable scope ⟨lower name, ty, pos, none⟩).2) :=
    fun scope pos name ty a => (a.declareVariable_lowered scope ⟨name, ty, pos, none⟩).bind fun r => .ok r.2
  unfold declareParameters
  dsimp only
  rw [function_lowered]
  generalize a.function id = f
  have hvars : (a.lowered.scope f.lowered.scope).vars.isEmpty = (a.scope f.scope).vars.isEmpty := by
    rw [scope_lowered, Scope.vars_lowered, List.isEmpty_map]
    rfl
  rw [hvars]
  split
  · exact .ok a
  · refine Matches.bind (f := lowered) ?_ fun a => ?_
    · rw [UserRoutine.lowered, Signature.lowered, List.foldlM_map]
      exact Matches.foldlM (fun a p => hdeclared _ _ _ _ a) _ a
    · rw [UserRoutine.lowered, Signature.result_lowered]
      cases f.signature.result with
      | none => exact .ok a
      | some ty => exact hdeclared f.scope f.pos resultName ty a

theorem missingBodies_lowered : a.lowered.missingBodies = a.missingBodies.map UserRoutine.lowered := by
  rw [missingBodies, lowered, Array.toList_map, List.filter_map, missingBodies]
  congr 1
  refine List.filter_congr fun f _ => ?_
  simp [UserRoutine.lowered]

end Arena

end Pascal
