import Pascal.Proofs.Scope.Chain
import Pascal.Proofs.Scope.Mirrors

/-!
# Operations on arenas in tables

An operation on an arena in tables and the same operation on the arena that it mirrors give the same
answer and leave arenas that mirror each other, or they fail alike and leave everything as it was. So
after any number of operations the tables of each scope agree with each other.
-/

namespace Pascal

namespace LibraryScope

theorem named_append (l : LibraryScope) (name key : String) (id : Nat) :
    named { l with routines := l.routines ++ [(name, id)] } key =
      l.named key ++ if key = name then [id] else [] := by
  unfold named
  rw [List.filterMap_append]
  by_cases hk : key = name
  · simp [hk]
  · simp [hk, Ne.symm hk]

end LibraryScope

namespace Arena

variable {a : Arena} {d : Nat} {name : String} {sig : Signature} {pos : Position}

/-- A heading with a new name. -/
theorem declareFunction_of_none (hsig : misplaced? sig = none) (hd : d < a.scopes.size)
    (hf : (a.scope d).find? (Text.lower name) = none) :
    a.declareFunction d name sig pos = .ok (a.functions.size, (a.addFunction d name sig pos).2.modifyScope
      d (·.add ⟨Text.lower name, pos, .routines [a.functions.size]⟩)) := by
  have hf' : ((a.addFunction d name sig pos).2.scope d).find? (Text.lower name) = none := by
    rw [scope_addFunction, if_neg hd.ne, hf]
  simp only [declareFunction, hsig, hf, declare, hf']
  rfl

/-- A heading with the name of other routines. -/
theorem declareFunction_of_routines (hsig : misplaced? sig = none) {key : String} {p : Position}
    {ids : List Nat} (hf : (a.scope d).find? (Text.lower name) = some ⟨key, p, .routines ids⟩) :
    a.declareFunction d name sig pos =
      match ids.find? fun id => (a.function id).signature.sameParameters sig with
      | some id =>
        if (a.function id).body.isSome then .error (.duplicateBody name pos (a.function id).pos)
        else if !sameResult (a.function id).signature.result sig.result then
          .error (.namingConflict name "Routine" pos "Routine" (a.function id).pos)
        else .ok (id, a)
      | none => .ok (a.functions.size, (a.addFunction d name sig pos).2.modifyScope d
          (·.setRoutines (Text.lower name) (ids ++ [a.functions.size]))) := by
  simp only [declareFunction, hsig, hf]
  cases ids.find? fun id => (a.function id).signature.sameParameters sig with
  | none => rfl
  | some id =>
    by_cases hbody : (a.function id).body.isSome
    · simp only [hbody, if_true]
      rfl
    · by_cases hresult : !sameResult (a.function id).signature.result sig.result
      · simp only [hbody, hresult, if_true]
        rfl
      · simp only [hbody, hresult]
        rfl

/-- A heading with the name of something else. -/
theorem declareFunction_of_other (hsig : misplaced? sig = none) {decl : Declaration}
    (hf : (a.scope d).find? (Text.lower name) = some decl) (he : ∀ ids, decl.entity ≠ .routines ids) :
    a.declareFunction d name sig pos = .error (conflict name (.routines []) pos decl) := by
  obtain ⟨key, p, _ | _ | _ | _⟩ := decl
  · exact absurd rfl (he _)
  all_goals
    simp only [declareFunction, hsig, hf]
    rfl

end Arena

namespace Tabled

/-- What is put first in a list is found first. -/
theorem Table.insert_find? {α : Type} {t : Table α} {xs : List (String × α)}
    (h : ∀ key, t key = (xs.find? (·.1 == key)).map (·.2)) (name : String) (x : α) (key : String) :
    t.insert name x key = (((name, x) :: xs).find? (·.1 == key)).map (·.2) := by
  rw [Table.insert_apply, h key]
  by_cases hk : key = name
  · simp [hk]
  · rw [if_neg hk, List.find?_cons_of_neg (by simpa using Ne.symm hk)]

namespace Library

/-- The tables of a library say what the lists of another one say. -/
structure Mirrors (l : Library) (k : LibraryScope) : Prop where
  name : l.name = k.name
  routines : ∀ key, l.routines key = if k.named key = [] then none else some (k.named key)
  constants : ∀ key, l.constants key = (k.constants.find? (·.1 == key)).map (·.2)
  types : ∀ key, l.types key = (k.types.find? (·.1 == key)).map (·.2)

namespace Mirrors

variable {l : Library} {k : LibraryScope}

theorem empty (name : String) : Mirrors { name } { name } where
  name := rfl
  routines _ := rfl
  constants _ := rfl
  types _ := rfl

theorem addRoutine (h : l.Mirrors k) (key : String) (id : Nat) :
    Mirrors { l with routines := l.routines.append key id }
      { k with routines := k.routines ++ [(key, id)] } where
  name := h.name
  routines key' := by
    simp only [LibraryScope.named_append, Table.append, Table.insert_apply, h.routines]
    by_cases hk : key' = key
    · by_cases hnil : k.named key = [] <;> simp [hk, hnil]
    · simp [hk]
  constants := h.constants
  types := h.types

theorem addConstant (h : l.Mirrors k) (key : String) (c : Constant) :
    Mirrors { l with constants := l.constants.insert key c }
      { k with constants := (key, c) :: k.constants } where
  name := h.name
  routines := h.routines
  constants := Table.insert_find? h.constants key c
  types := h.types

theorem addType (h : l.Mirrors k) (key : String) (ty : Ty) :
    Mirrors { l with types := l.types.insert key ty } { k with types := (key, ty) :: k.types } where
  name := h.name
  routines := h.routines
  constants := h.constants
  types := Table.insert_find? h.types key ty

/-- Routines are numbered on from those that are known. -/
theorem addRoutines (h : l.Mirrors k) (rs : List Routine) (natives : Array Routine) :
    (Arena.addRoutines rs (l, natives)).1.Mirrors { k with
      routines := k.routines ++ (rs.zipIdx natives.size).map fun (r, i) => (Text.lower r.name, i) } ∧
    (Arena.addRoutines rs (l, natives)).2 = natives ++ rs.toArray := by
  induction rs generalizing l k natives with
  | nil => simpa [Arena.addRoutines] using h
  | cons r rs ih =>
    have := ih (h.addRoutine (Text.lower r.name) natives.size) (natives.push r)
    simpa [Arena.addRoutines, List.zipIdx_cons] using this

end Mirrors
end Library

namespace Arena

variable {s : Arena} {a : Pascal.Arena}

@[simp] theorem scope_addScope (c : Scope) (id : Nat) :
    (s.addScope c).scope id = if id = s.scopes.size then c else s.scope id := by
  simp only [scope, addScope, Array.getElem?_push]
  split <;> simp

@[simp] theorem scope_modifyScope (id n : Nat) (f : Scope → Scope) :
    (s.modifyScope id f).scope n =
      if n = id ∧ n < s.scopes.size then f (s.scope n) else s.scope n := by
  simp only [scope, modifyScope, Array.getElem?_modify]
  by_cases hs : n < s.scopes.size
  · by_cases he : id = n <;> simp [he, hs, eq_comm]
  · simp [hs]

@[simp] theorem library_modifyLibrary (id n : Nat) (f : Library → Library) :
    (s.modifyLibrary id f).library n =
      if n = id ∧ n < s.libraries.size then f (s.library n) else s.library n := by
  simp only [library, modifyLibrary, Array.getElem?_modify]
  by_cases hs : n < s.libraries.size
  · by_cases he : id = n <;> simp [he, hs, eq_comm]
  · simp [hs]

@[simp] theorem size_modifyScope (id : Nat) (f : Scope → Scope) :
    (s.modifyScope id f).scopes.size = s.scopes.size := by simp [modifyScope]

theorem modifyScope_modifyScope (id : Nat) (f g : Scope → Scope) :
    (s.modifyScope id f).modifyScope id g = s.modifyScope id fun c => g (f c) := by
  simp only [modifyScope, mk.injEq, and_self, and_true]
  ext i h₁ h₂
  · simp
  · simp only [Array.getElem_modify]
    split <;> rfl

theorem addFunction_modifyScope {d : Nat} (hd : d < s.scopes.size) (f : Scope → Scope) (name : String)
    (sig : Signature) (pos : Position) : (s.modifyScope d f).addFunction d name sig pos =
      (s.addFunction d name sig pos).modifyScope d f := by
  have hscopes : ∀ c : Scope, (s.scopes.modify d f).push c = (s.scopes.push c).modify d f := by
    intro c
    ext i h₁ h₂
    · simp
    · simp only [Array.getElem_push, Array.getElem_modify, Array.size_modify]
      by_cases hi : i < s.scopes.size
      · simp [hi]
      · simp [hi, show d ≠ i by omega]
  simp only [addFunction, addScope, modifyScope, hscopes, Array.size_modify]

/-- What is true of an arena in tables however it came about: its scopes are sound, a scope is made
after the one around it, and a routine has a scope of its own in the one that declares it. -/
structure Sound (s : Arena) : Prop where
  scope : ∀ id, (s.scope id).Sound
  outer : ∀ id parent, (s.scope id).parent = some parent → parent < id
  own : ∀ id < s.functions.size, (s.function id).scope < s.scopes.size ∧
    (s.scope (s.function id).scope).kind = .function id ∧
    (s.scope (s.function id).scope).parent = some (s.function id).declaredIn

/-- An arena in tables says what an arena says. -/
structure Mirrors (s : Arena) (a : Pascal.Arena) : Prop where
  functions : s.functions = a.functions
  natives : s.natives = a.natives
  scopes : s.scopes.size = a.scopes.size
  scope : ∀ id, (s.scope id).Mirrors (a.scope id)
  libraries : s.libraries.size = a.libraries.size
  library : ∀ id, (s.library id).Mirrors (a.library id)
  outer : ∀ id parent, (a.scope id).parent = some parent → parent < id
  own : ∀ id < a.functions.size, (a.function id).scope < a.scopes.size ∧
    (a.scope (a.function id).scope).kind = .function id ∧
    (a.scope (a.function id).scope).parent = some (a.function id).declaredIn

namespace Mirrors

theorem empty : Mirrors {} {} where
  functions := rfl
  natives := rfl
  scopes := rfl
  scope _ := .empty ..
  libraries := rfl
  library _ := .empty _
  outer _ _ h := by cases h
  own _ h := by cases h

theorem function (h : s.Mirrors a) (id : Nat) : s.function id = a.function id := by
  rw [Arena.function, h.functions, Pascal.Arena.function]

theorem sound (h : s.Mirrors a) : s.Sound where
  scope id := (h.scope id).sound
  outer id parent hp := h.outer id parent ((h.scope id).parent ▸ hp)
  own id hid := by
    obtain ⟨hlt, hkind, hparent⟩ := h.own id (h.functions ▸ hid)
    rw [h.function id, (h.scope _).kind, (h.scope _).parent, h.scopes]
    exact ⟨hlt, hkind, hparent⟩

theorem push (h : s.Mirrors a) (kind : ScopeKind) (name : String) (parent : Option Nat)
    (hparent : ∀ p ∈ parent, p < s.scopes.size) :
    (s.addScope { kind, name, parent }).Mirrors (a.push kind name parent).2 where
  functions := h.functions
  natives := h.natives
  scopes := by simp [addScope, Pascal.Arena.push, h.scopes]
  scope id := by
    rw [scope_addScope, Pascal.Arena.scope_push, h.scopes]
    split
    · exact .empty ..
    · exact h.scope id
  libraries := h.libraries
  library := h.library
  outer id p hp := by
    rw [Pascal.Arena.scope_push] at hp
    split at hp
    · next hid => rw [hid, ← h.scopes]; exact hparent p hp
    · exact h.outer id p hp
  own id hid := by
    obtain ⟨hlt, hown⟩ := h.own id hid
    have hfunction : (a.push kind name parent).2.function id = a.function id := rfl
    rw [hfunction, Pascal.Arena.scope_push, if_neg hlt.ne]
    exact ⟨hlt.trans_le (Pascal.Arena.Grows.push ..).scopes, hown⟩

/-- Changing a scope in both. -/
theorem modifyScope (h : s.Mirrors a) {id : Nat} {f : Scope → Scope} {g : Pascal.Scope → Pascal.Scope}
    (hf : (f (s.scope id)).Mirrors (g (a.scope id))) (hkind : (g (a.scope id)).kind = (a.scope id).kind)
    (hparent : (g (a.scope id)).parent = (a.scope id).parent) :
    (s.modifyScope id f).Mirrors (a.modifyScope id g) := by
  have hkept : ∀ n, ((a.modifyScope id g).scope n).kind = (a.scope n).kind ∧
      ((a.modifyScope id g).scope n).parent = (a.scope n).parent := by
    intro n
    rw [Pascal.Arena.scope_modifyScope]
    split
    · next he => rw [he.1]; exact ⟨hkind, hparent⟩
    · exact ⟨rfl, rfl⟩
  refine ⟨h.functions, h.natives, by simp [h.scopes], fun n => ?_, h.libraries, h.library,
    fun n p hp => ?_, fun n hn => ?_⟩
  · rw [scope_modifyScope, Pascal.Arena.scope_modifyScope, h.scopes]
    split
    · next he => rw [he.1]; exact hf
    · exact h.scope n
  · exact h.outer n p ((hkept n).2 ▸ hp)
  · obtain ⟨hlt, hk, hp⟩ := h.own n hn
    exact ⟨hlt.trans_eq (Pascal.Arena.size_modifyScope id g).symm, (hkept _).1.trans hk,
      (hkept _).2.trans hp⟩

/-- Changing a library in both. -/
theorem modifyLibrary (h : s.Mirrors a) {id : Nat} {f : Library → Library}
    {g : LibraryScope → LibraryScope} (hf : (f (s.library id)).Mirrors (g (a.library id))) :
    (s.modifyLibrary id f).Mirrors { a with libraries := a.libraries.modify id g } := by
  refine ⟨h.functions, h.natives, h.scopes, h.scope, by simp [Arena.modifyLibrary, h.libraries],
    fun n => ?_, h.outer, h.own⟩
  have hlibrary : Pascal.Arena.library { a with libraries := a.libraries.modify id g } n =
      if n = id ∧ n < a.libraries.size then g (a.library n) else a.library n := by
    simp only [Pascal.Arena.library, Array.getElem?_modify]
    by_cases hs : n < a.libraries.size
    · by_cases he : id = n <;> simp [he, hs, eq_comm]
    · simp [hs]
  rw [library_modifyLibrary, hlibrary, h.libraries]
  split
  · next he => rw [he.1]; exact hf
  · exact h.library n

theorem addLibrary (h : s.Mirrors a) (name : String) (rs : List Routine) :
    (s.addLibrary name rs).Mirrors (a.addLibrary name rs).2 := by
  obtain ⟨hlibrary, hnatives⟩ :=
    (Library.Mirrors.empty (Text.lower name)).addRoutines rs s.natives
  have hnames : (rs.zipIdx s.natives.size).map (fun (r, i) => (Text.lower r.name, i)) =
      rs.zipIdx.map fun (r, i) => (Text.lower r.name, a.natives.size + i) := by
    rw [List.zipIdx_eq_map_add, List.map_map, h.natives]
    rfl
  rw [hnames, List.nil_append] at hlibrary
  refine ⟨h.functions, ?_, h.scopes, h.scope, ?_, fun n => ?_, h.outer, h.own⟩
  · exact hnatives.trans (congrArg (· ++ rs.toArray) h.natives)
  · simp [Arena.addLibrary, h.libraries, Pascal.Arena.addLibrary]
  · simp only [Arena.library, Arena.addLibrary, Pascal.Arena.library, Pascal.Arena.addLibrary,
      Array.getElem?_push, h.libraries]
    split
    · exact hlibrary
    · exact h.library n

/-- Changing the body of a routine in both. -/
theorem setBody (h : s.Mirrors a) (id : Nat) (body : Stmt) :
    Mirrors { s with functions := s.functions.modify id fun f => { f with body := some body } }
      (a.modifyFunction id fun f => { f with body := some body }) := by
  refine ⟨by rw [h.functions]; rfl, h.natives, h.scopes, h.scope, h.libraries, h.library, h.outer,
    fun n hn => ?_⟩
  have hown := h.own n (by simpa [Pascal.Arena.modifyFunction] using hn)
  rw [Pascal.Arena.function_modifyFunction]
  split <;> exact hown

/-- A new routine in both. -/
theorem addFunction (h : s.Mirrors a) {d : Nat} (hd : d < s.scopes.size) (name : String)
    (sig : Signature) (pos : Position) :
    (s.addFunction d name sig pos).Mirrors (a.addFunction d name sig pos).2 := by
  have hpush := h.push (.function a.functions.size) name (some d) (by rintro p ⟨⟩; exact hd)
  have hadd : (s.addFunction d name sig pos).scopes =
      (s.addScope { kind := .function a.functions.size, name, parent := some d }).scopes := by
    rw [← h.functions]
    rfl
  have hsize : (a.addFunction d name sig pos).2.functions.size = a.functions.size + 1 := by
    simp [Pascal.Arena.addFunction, Pascal.Arena.push]
  refine ⟨?_, h.natives, ?_, fun n => ?_, h.libraries, h.library, fun n => ?_, fun n hn => ?_⟩
  · simp [Arena.addFunction, Arena.addScope, Pascal.Arena.addFunction, Pascal.Arena.push, h.functions,
      h.scopes]
  · exact (congrArg Array.size hadd).trans hpush.scopes
  · rw [Arena.scope, hadd]
    exact hpush.scope n
  · exact hpush.outer n
  · rw [Pascal.Arena.function_addFunction]
    split
    · next he =>
      rw [Pascal.Arena.scope_addFunction, if_pos rfl, he]
      exact ⟨by simp [Pascal.Arena.addFunction, Pascal.Arena.push], rfl, rfl⟩
    · next he =>
      have hlt : n < a.functions.size := by omega
      exact hpush.own n hlt

end Mirrors
end Arena

/-- How an operation on an arena in tables ends beside the same one on the arena it mirrors. -/
inductive Alike (s : Arena) {α : Type} :
    EStateM.Result ScopeError Arena α → Except ScopeError (α × Pascal.Arena) → Prop
  | failed (e : ScopeError) : Alike s (.error e s) (.error e)
  | done (x : α) {s' : Arena} {a' : Pascal.Arena} (h : s'.Mirrors a') :
      Alike s (.ok x s') (.ok (x, a'))

section Steps

variable {s : Arena} {a : Pascal.Arena} {α β : Type}

theorem Alike.map {m : Change α} {r : Except ScopeError (α × Pascal.Arena)} (h : Alike s (m.run s) r)
    (f : α → β) : Alike s ((f <$> m).run s) (do return (← r).map f id) := by
  rw [map_eq_pure_bind, EStateM.run_bind]
  generalize m.run s = result at h
  cases h with
  | failed e => exact .failed e
  | done x h => exact .done (f x) h

/-- A name that a scope does not have yet. -/
theorem claim_new {scope : Nat} {name : String} (kind : Kind) (pos : Position)
    (h : (s.scope scope).declared (Text.lower name) = none) :
    (claim scope name kind pos).run s =
      .ok () (s.modifyScope scope (·.claimed (Text.lower name) kind pos)) := by
  rw [claim, EStateM.run_bind, EStateM.run_get]
  simp only [h]
  rfl

/-- Routines share their name. -/
theorem claim_shared {scope : Nat} {name : String} (pos : Position) {previous : Position}
    (h : (s.scope scope).declared (Text.lower name) = some (.routine, previous)) :
    (claim scope name .routine pos).run s = .ok () s := by
  rw [claim, EStateM.run_bind, EStateM.run_get]
  simp only [h]
  rfl

/-- A name that a scope has for something else. -/
theorem claim_conflict {scope : Nat} {name : String} {kind previousKind : Kind} (pos : Position)
    {previous : Position}
    (h : (s.scope scope).declared (Text.lower name) = some (previousKind, previous))
    (hkind : ¬(kind = .routine ∧ previousKind = .routine)) :
    (claim scope name kind pos).run s =
      .error (.namingConflict name kind.describe pos previousKind.describe previous) s := by
  rw [claim, EStateM.run_bind, EStateM.run_get]
  simp only [h, if_neg hkind]
  rfl

/-- Claims a name and stores what it is declared as. -/
def declare (scope : Nat) (name : String) (pos : Position) (e : Entity) : Change Unit := do
  claim scope name e.tabled pos
  modify fun s => s.modifyScope scope (·.store (Text.lower name) e)

/-- A declaration fails before it has changed anything, or it stores what it has claimed the name for. -/
theorem Arena.Mirrors.declare (h : s.Mirrors a) (scope : Nat) (name : String) (pos : Position)
    {e : Entity} (he : e.tabled ≠ .routine)
    (hname : ∀ v, e = .var v → Text.lower v.name = Text.lower name) (x : α) :
    Alike s (((fun _ => x) <$> Tabled.declare scope name pos e).run s)
      (do return (x, ← a.declare scope name pos e)) := by
  have hdeclared := (h.scope scope).declared (Text.lower name)
  rw [map_eq_pure_bind, Tabled.declare, Pascal.Arena.declare, EStateM.run_bind, EStateM.run_bind]
  cases hf : (a.scope scope).find? (Text.lower name) with
  | some d =>
    rw [hf] at hdeclared
    rw [claim_conflict pos hdeclared fun hk => he hk.1, Entity.describe_tabled,
      Entity.describe_tabled]
    exact .failed _
  | none =>
    rw [hf] at hdeclared
    rw [claim_new e.tabled pos hdeclared]
    simp only [EStateM.run_modify, Arena.modifyScope_modifyScope]
    exact .done x (h.modifyScope ((h.scope scope).add pos hf hname) rfl rfl)

theorem declareVariable_eq (scope : Nat) (v : Variable) : declareVariable scope v =
    (fun _ => ⟨scope, Text.lower v.name⟩) <$> declare scope v.name v.pos (.var v) := by
  rw [declare, map_eq_pure_bind, bind_assoc]
  rfl

theorem withParameters_map (h : s.Mirrors a) (sig : Signature) (ids : List Nat) :
    withParameters s sig (ids.map .user) =
      ids.find? fun id => (a.function id).signature.sameParameters sig := by
  unfold withParameters
  induction ids with
  | nil => rfl
  | cons id ids ih =>
    rw [List.find?_cons, ← ih, List.map_cons, List.findSome?_cons, ← h.function id]
    cases hsame : (s.function id).signature.sameParameters sig <;> simp [hsame]

section Heading

variable {s' : Arena} {d : Nat} {name : String} {sig : Signature} {pos : Position}

/-- A heading with the name and the parameters of an earlier one. -/
theorem declareFunction_again (hsig : Pascal.Arena.misplaced? sig = none)
    (hclaim : (claim d name .routine pos).run s = .ok () s') {id : Nat}
    (hid : withParameters s' sig (((s'.scope d).routines (Text.lower name)).getD []) = some id) :
    (declareFunction d name sig pos).run s =
      if (s'.function id).body.isSome then
        .error (.duplicateBody name pos (s'.function id).pos) s'
      else if !Pascal.Arena.sameResult (s'.function id).signature.result sig.result then
        .error (.namingConflict name "Routine" pos "Routine" (s'.function id).pos) s'
      else .ok id s' := by
  rw [declareFunction]
  simp only [hsig, EStateM.run_bind, hclaim, EStateM.run_get, hid]
  by_cases hbody : (s'.function id).body.isSome
  · rw [if_pos hbody, if_pos hbody]
    rfl
  · rw [if_neg hbody, if_neg hbody]
    by_cases hresult : !Pascal.Arena.sameResult (s'.function id).signature.result sig.result
    · rw [if_pos hresult, if_pos hresult]
      rfl
    · rw [if_neg hresult, if_neg hresult]
      rfl

/-- A heading with other parameters than all earlier ones of its name. -/
theorem declareFunction_new (hsig : Pascal.Arena.misplaced? sig = none)
    (hclaim : (claim d name .routine pos).run s = .ok () s')
    (hnone : withParameters s' sig (((s'.scope d).routines (Text.lower name)).getD []) = none) :
    (declareFunction d name sig pos).run s =
      .ok s'.functions.size ((s'.addFunction d name sig pos).modifyScope d fun c =>
        { c with routines := c.routines.append (Text.lower name) (.user s'.functions.size) }) := by
  rw [declareFunction]
  simp only [hsig, EStateM.run_bind, hclaim, EStateM.run_get, hnone]
  rfl

/-- Declaring a heading with the name of something else. -/
theorem declareFunction_conflict (hsig : Pascal.Arena.misplaced? sig = none) {e : ScopeError}
    (hclaim : (claim d name .routine pos).run s = .error e s) :
    (declareFunction d name sig pos).run s = .error e s := by
  rw [declareFunction]
  simp only [hsig, EStateM.run_bind, hclaim]

end Heading

/-- Whatever a heading fails for, nothing has been changed by then. -/
theorem Arena.Mirrors.declareFunction (h : s.Mirrors a) {d : Nat} (hd : d < s.scopes.size)
    (name : String) (sig : Signature) (pos : Position) :
    Alike s ((Tabled.declareFunction d name sig pos).run s) (a.declareFunction d name sig pos) := by
  have hdeclared := (h.scope d).declared (Text.lower name)
  have hroutines := (h.scope d).routines (Text.lower name)
  have hadd := h.addFunction hd name sig pos
  have hscope : (s.addFunction d name sig pos).scope d = s.scope d := by
    rw [Arena.scope, Arena.addFunction]
    exact (scope_addScope _ d).trans (if_neg hd.ne)
  have hscope' : (a.addFunction d name sig pos).2.scope d = a.scope d := by
    rw [Pascal.Arena.scope_addFunction, if_neg (h.scopes ▸ hd).ne]
  cases hsig : Pascal.Arena.misplaced? sig with
  | some p =>
    rw [Tabled.declareFunction, Pascal.Arena.declareFunction, hsig]
    exact .failed _
  | none =>
    cases hf : (a.scope d).find? (Text.lower name) with
    | none =>
      rw [hf] at hdeclared
      rw [Pascal.Scope.entity?, hf] at hroutines
      let s' := s.modifyScope d (·.claimed (Text.lower name) .routine pos)
      have hclaim : (claim d name .routine pos).run s = .ok () s' := claim_new .routine pos hdeclared
      have hnone : withParameters s' sig (((s'.scope d).routines (Text.lower name)).getD []) = none := by
        rw [scope_modifyScope, if_pos ⟨rfl, hd⟩, Scope.claimed, hroutines]
        rfl
      rw [declareFunction_new hsig hclaim hnone, addFunction_modifyScope hd, modifyScope_modifyScope,
        Pascal.Arena.declareFunction_of_none hsig (h.scopes ▸ hd) hf, ← h.functions]
      refine .done _ (hadd.modifyScope ?_ rfl rfl)
      rw [hscope, hscope', Table.append, Scope.claimed, hroutines]
      exact (h.scope d).add pos (e := .routines [s.functions.size]) hf fun v hv => by cases hv
    | some decl =>
      obtain ⟨key, previous, e⟩ := decl
      have hentity : (a.scope d).entity? (Text.lower name) = some e := by
        rw [Pascal.Scope.entity?, hf]
        rfl
      rw [hf] at hdeclared
      rw [hentity] at hroutines
      cases e with
      | routines ids =>
        have hclaim := claim_shared pos hdeclared
        have hwith : withParameters s sig (((s.scope d).routines (Text.lower name)).getD []) =
            ids.find? fun id => (a.function id).signature.sameParameters sig := by
          rw [hroutines]
          exact withParameters_map h sig ids
        rw [Pascal.Arena.declareFunction_of_routines hsig hf]
        cases hid : ids.find? fun id => (a.function id).signature.sameParameters sig with
        | some id =>
          rw [declareFunction_again hsig hclaim (hwith.trans hid), h.function id]
          dsimp only
          split
          · exact .failed _
          · split
            · exact .failed _
            · exact .done id h
        | none =>
          rw [declareFunction_new hsig hclaim (hwith.trans hid), h.functions]
          refine .done _ (hadd.modifyScope ?_ rfl rfl)
          rw [hscope, hscope']
          exact (h.scope d).addRoutine hentity _
      | constant _ | var _ | type _ =>
        rw [declareFunction_conflict hsig (claim_conflict pos hdeclared (by simp [Entity.tabled])),
          Pascal.Arena.declareFunction_of_other hsig hf (by simp)]
        exact .failed _

end Steps
end Tabled

namespace Operation

open Tabled (Alike)

variable {s : Tabled.Arena} {a : Arena} {op : Operation}

/-- An operation does the same in tables, and if it fails then it has changed nothing. -/
theorem perform_alike (h : s.Mirrors a) (hop : op.Fits s) : Alike s (op.perform.run s) (op.run a) := by
  cases op with
  | push kind name parent =>
    have hrun : run a (push kind name parent) =
        .ok (.number s.scopes.size, (a.push kind name parent).2) := by
      rw [h.scopes]
      rfl
    rw [hrun]
    exact .done _ (h.push kind name parent hop)
  | declareVariable scope v =>
    have hdeclare := (h.declare scope v.name v.pos (e := .var v) (by simp [Entity.tabled])
      (by simp +contextual) (⟨scope, Text.lower v.name⟩ : VarRef)).map Answer.var
    rwa [← Tabled.declareVariable_eq] at hdeclare
  | declareConstant scope c =>
    exact h.declare scope c.name c.pos (e := .constant c) (by simp [Entity.tabled]) (by simp) Answer.done
  | declareType scope name ty pos =>
    exact h.declare scope name pos (e := .type ty) (by simp [Entity.tabled]) (by simp) Answer.done
  | declareFunction d name sig pos => exact (h.declareFunction hop name sig pos).map Answer.number
  | setBody id body => exact .done _ (h.setBody id body)
  | addLibrary name routines =>
    have hrun : run a (addLibrary name routines) =
        .ok (.number s.libraries.size, (a.addLibrary name routines).2) := by
      rw [h.libraries]
      rfl
    rw [hrun]
    exact .done _ (h.addLibrary name routines)
  | addLibraryConstant library c =>
    exact .done _ (h.modifyLibrary ((h.library library).addConstant (Text.lower c.name) c))
  | addLibraryType library name ty =>
    exact .done _ (h.modifyLibrary ((h.library library).addType (Text.lower name) ty))
  | addImport scope i =>
    refine .done _ (h.modifyScope ((h.scope scope).addImport i) ?_ ?_) <;> split <;> rfl

/-- What an operation leaves behind, in tables or not, still says the same. -/
theorem after_mirrors (h : s.Mirrors a) (hop : op.Fits s) :
    (s.after op).Mirrors (a.afterOperation op) := by
  have halike := perform_alike h hop
  unfold Tabled.Arena.after Arena.afterOperation
  generalize op.perform.run s = x at halike
  generalize op.run a = y at halike
  cases halike with
  | failed e => exact h
  | done _ h' => exact h'

/-- So do all operations of a sequence. -/
theorem foldl_mirrors {ops : List Operation} (h : s.Mirrors a) (hops : AllFit ops s) :
    (ops.foldl Tabled.Arena.after s).Mirrors (ops.foldl Arena.afterOperation a) := by
  induction ops generalizing s a with
  | nil => exact h
  | cons op ops ih => exact ih (after_mirrors h hops.1) hops.2

/-- After any operations on scopes, routines and libraries that there are, the tables of each scope
agree, scopes are nested, the lookup of a name ends, and the next operation does the same in tables and
otherwise. If it fails, it has changed nothing. -/
theorem foldl_sound (ops : List Operation) (hops : AllFit ops {}) :
    (ops.foldl Tabled.Arena.after {}).Sound ∧
    (ops.foldl Tabled.Arena.after {}).Mirrors (ops.foldl Arena.afterOperation {}) ∧
    (∀ id, (ops.foldl Arena.afterOperation {}).chain id = id ::
      (((ops.foldl Arena.afterOperation {}).scope id).parent.map
        (ops.foldl Arena.afterOperation {}).chain).getD []) ∧
    ∀ op : Operation, op.Fits (ops.foldl Tabled.Arena.after {}) →
      Alike (ops.foldl Tabled.Arena.after {}) (op.perform.run (ops.foldl Tabled.Arena.after {}))
        (op.run (ops.foldl Arena.afterOperation {})) ∧
      ∀ e s', op.perform.run (ops.foldl Tabled.Arena.after {}) = .error e s' →
        s' = ops.foldl Tabled.Arena.after {} := by
  have h : (ops.foldl Tabled.Arena.after {}).Mirrors (ops.foldl Arena.afterOperation {}) :=
    foldl_mirrors .empty hops
  refine ⟨h.sound, h, Arena.chain_eq_of_outer h.outer, fun op hop => ?_⟩
  have halike := perform_alike h hop
  refine ⟨halike, fun e s' hfailed => ?_⟩
  rw [hfailed] at halike
  generalize op.run (ops.foldl Arena.afterOperation {}) = y at halike
  cases halike
  rfl

/-- A variable, a constant that cannot have its name, two routines that share one, and a heading that
comes after its body. -/
private def overloads : List Operation :=
  let pos : Position := default
  let integers : Signature := ⟨[⟨"x", .integer, .value⟩], none⟩
  let strings : Signature := ⟨[⟨"s", .string, .value⟩], none⟩
  [.push .program "main" none, .declareVariable 0 ⟨"Total", .integer, pos, none⟩,
    .declareConstant 0 ⟨"TOTAL", .integer 1, .integer, pos⟩, .declareFunction 0 "Show" integers pos,
    .declareFunction 0 "show" strings pos, .setBody 0 (.empty pos),
    .declareFunction 0 "SHOW" integers pos, .addLibrary "Crt" [], .addImport 0 (.library 0)]

theorem foldl_sound_overloads : AllFit overloads {} ∧ (overloads.foldl Tabled.Arena.after {}).Sound :=
  have hops : AllFit overloads {} := by decide +kernel
  ⟨hops, (foldl_sound overloads hops).1⟩

end Operation

end Pascal
