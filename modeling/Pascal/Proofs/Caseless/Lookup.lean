import Pascal.Proofs.Caseless.Scope

/-!
# Looking up names without regard to case

A name in lower case means in an arena in lower case what the name means in the arena, and a call of it
means the same routine.
-/

namespace Pascal

open Text

namespace Arena

variable (a : Arena)

theorem chain_lowered (scope : Nat) : a.lowered.chain scope = a.chain scope := by
  have hwithin : ∀ n scope, a.lowered.chainWithin n scope = a.chainWithin n scope := by
    intro n
    induction n with
    | zero => exact fun _ => rfl
    | succ n ih =>
      intro scope
      rw [chainWithin, chainWithin, scope_lowered]
      simp only [Scope.lowered, ih]
  have hsize : a.lowered.scopes.size = a.scopes.size := Array.size_map
  rw [chain, chain, hsize, hwithin]

theorem importRoutines_lowered (key : String) (i : Import) :
    a.lowered.importRoutines key i = a.importRoutines key i := by
  cases i with
  | library id => rw [importRoutines, importRoutines, library_lowered]; rfl
  | unit scope => rw [importRoutines, importRoutines, scope_lowered, Scope.routines?_lowered]

theorem withImported_lowered (scope : Nat) (key : String) (callees : List Callee) :
    a.lowered.withImported scope key callees = a.withImported scope key callees := by
  have hroutines : a.lowered.importRoutines key = a.importRoutines key :=
    funext (a.importRoutines_lowered key)
  simp only [withImported, importedRoutines, hroutines, scope_lowered, Scope.lowered]

theorem callableBare_lowered (callees : List Callee) :
    a.lowered.callableBare callees = a.callableBare callees := by
  simp [callableBare]

theorem importMeaning?_lowered (scope : Nat) (key : String) (i : Import) :
    a.lowered.importMeaning? scope key i = (a.importMeaning? scope key i).map Meaning.lowered := by
  cases i with
  | library id =>
    have hnamed : (a.library id).lowered.named key = (a.library id).named key := rfl
    rw [importMeaning?, importMeaning?, library_lowered]
    dsimp only
    rw [hnamed]
    cases (a.library id).named key with
    | nil =>
      rw [LibraryScope.lowered, List.find?_map, Option.map_map, Option.map_map]
      rfl
    | cons id ids => simp only [withImported_lowered]; rfl
  | unit scope =>
    rw [importMeaning?, importMeaning?, scope_lowered, Scope.entity?_lowered]
    cases (a.scope scope).entity? key with
    | none => rfl
    | some e =>
      cases e with
      | routines ids => simp only [Option.map_some, Entity.lowered, withImported_lowered]; rfl
      | _ => rfl

theorem importedMeaning?_lowered (scope : Nat) (key : String) :
    a.lowered.importedMeaning? scope key = (a.importedMeaning? scope key).map Meaning.lowered := by
  have himport : a.lowered.importMeaning? scope key =
      fun i => (a.importMeaning? scope key i).map Meaning.lowered :=
    funext (a.importMeaning?_lowered scope key)
  rw [importedMeaning?, importedMeaning?, himport, scope_lowered, List.map_findSome?]
  rfl

theorem declaredMeaning?_lowered (scope : Nat) (key : String) :
    a.lowered.declaredMeaning? scope key = (a.declaredMeaning? scope key).map Meaning.lowered := by
  rw [declaredMeaning?, declaredMeaning?, scope_lowered, Scope.entity?_lowered]
  cases (a.scope scope).entity? key with
  | none => rfl
  | some e =>
    cases e with
    | routines ids => simp only [Option.map_some, Entity.lowered, withImported_lowered]; rfl
    | _ => rfl

theorem prefer_lowered (nearest : Option (List Callee)) (ms : List Meaning) :
    a.lowered.prefer nearest (ms.map Meaning.lowered) = (a.prefer nearest ms).map Meaning.lowered := by
  induction ms generalizing nearest with
  | nil => cases nearest <;> rfl
  | cons m ms ih =>
    cases m with
    | routines callees =>
      rw [List.map_cons, Meaning.lowered, prefer, prefer, callableBare_lowered]
      split
      · rfl
      · exact ih _
    | _ => rfl

theorem meanings_lowered (scope : Nat) (key : String) :
    a.lowered.meanings scope key = (a.meanings scope key).map Meaning.lowered := by
  simp only [meanings, chain_lowered, declaredMeaning?_lowered, importedMeaning?_lowered,
    Option.toList_map, List.map_flatMap, List.map_append]

theorem lookup?_lowered (scope : Nat) (name : String) :
    a.lowered.lookup? scope (lower name) = (a.lookup? scope name).map Meaning.lowered := by
  rw [lookup?, lower_lower, meanings_lowered, prefer_lowered, lookup?]

theorem candidateLevels_lowered (scope : Nat) (name : String) :
    a.lowered.candidateLevels scope (lower name) = a.candidateLevels scope name := by
  simp only [candidateLevels, lower_lower, chain_lowered, scope_lowered, Scope.routines?_lowered,
    withImported_lowered]

theorem lookupRoutine?_lowered (scope : Nat) (name : String) :
    a.lowered.lookupRoutine? scope (lower name) =
      (a.lookupRoutine? scope name).map Meaning.lowered := by
  rw [lookupRoutine?, candidateLevels_lowered, lookupRoutine?, Option.map_map]
  rfl

theorem lookupType?_lowered (scope : Nat) (name : String) :
    a.lowered.lookupType? scope (lower name) = a.lookupType? scope name := by
  have himport : ∀ key, a.lowered.importType? key = a.importType? key := by
    intro key
    funext i
    cases i with
    | library id => rw [importType?, importType?, library_lowered]; rfl
    | unit scope => rw [importType?, importType?, scope_lowered, Scope.type?_lowered]
  simp only [lookupType?, lower_lower, chain_lowered, scope_lowered, Scope.type?_lowered, himport]
  rfl

/-! ### Calls -/

theorem chooseCallee_lowered (name : String) (shapes : List Shape) (pos : Position)
    (levels : List (List Callee)) :
    Checked.Matches id (a.chooseCallee name shapes pos levels)
      (a.lowered.chooseCallee (lower name) shapes pos levels) := by
  induction levels with
  | nil => exact .error rfl
  | cons level levels ih =>
    have hlevel : level.map (fun c => (c, a.lowered.signature c)) =
        (level.map fun c => (c, a.signature c)).map (Prod.map id Signature.lowered) := by
      simp
    rw [chooseCallee, chooseCallee, hlevel, Signature.choose_lowered]
    cases Signature.choose (level.map fun c => (c, a.signature c)) shapes with
    | ok found => exact .ok found
    | error e =>
      cases e with
      | ambiguous => exact .error rfl
      | noneApplicable => exact ih

theorem resolveCall_lowered (scope : Nat) (name : String) (args : List Expr) (pos : Position) :
    Checked.Matches (Prod.map id (Prod.map (List.map Arg.lowered) id))
      (a.resolveCall scope name args pos)
      (a.lowered.resolveCall scope (lower name) (args.map Expr.lowered) pos) := by
  have hshapes : (args.map Expr.lowered).map Expr.shape = args.map Expr.shape := by simp
  unfold resolveCall
  rw [hshapes, candidateLevels_lowered]
  refine (a.chooseCallee_lowered name _ pos _).bind_id fun found => ?_
  refine (Expr.boundAll_lowered name (lower name) args found.2.bindings).bind fun args => ?_
  rw [signature_lowered]
  exact .of_eq (found.1, args, (a.signature found.1).result) rfl

end Arena

end Pascal
