import Mathlib.Data.List.Nodup
import Mathlib.Logic.Relation
import Mathlib.Order.Nat
import Mathlib.Tactic.ByContra
import Pascal.Proofs.Elaboration

/-!
# Arenas grow

Nothing that was declared is taken back: scopes keep their place in the nesting and their variables, and
routines keep their headings.
-/

namespace Pascal

namespace Scope

/-- What a scope keeps while more is declared in it. -/
structure Within (s s' : Scope) : Prop where
  kind : s'.kind = s.kind
  parent : s'.parent = s.parent
  var : ∀ key v, s.entity? key = some (.var v) → s'.entity? key = some (.var v)

theorem Within.refl (s : Scope) : s.Within s := ⟨rfl, rfl, fun _ _ h => h⟩

theorem Within.trans {s s' s'' : Scope} (h : s.Within s') (h' : s'.Within s'') : s.Within s'' :=
  ⟨h'.kind.trans h.kind, h'.parent.trans h.parent, fun key v hv => h'.var key v (h.var key v hv)⟩

theorem mem_vars {s : Scope} {key : String} {v : Variable} (h : s.entity? key = some (.var v)) :
    v ∈ s.vars := by
  obtain ⟨d, hd, he⟩ := Option.map_eq_some_iff.mp h
  exact List.mem_filterMap.mpr ⟨d, List.mem_of_find?_eq_some hd, by rw [he]⟩

/-- Where names are declared once, a declaration is found under its name. -/
theorem find?_of_mem {s : Scope} (h : (s.declared.map (·.name)).Nodup) {d : Declaration}
    (hd : d ∈ s.declared) : s.find? d.name = some d := by
  have hsome : (s.find? d.name).isSome := List.find?_isSome.mpr ⟨d, hd, beq_self_eq_true _⟩
  obtain ⟨d', hd'⟩ := Option.isSome_iff_exists.mp hsome
  have hname : d'.name = d.name := by simpa using List.find?_some hd'
  rw [hd', List.inj_on_of_nodup_map h (List.mem_of_find?_eq_some hd') hd hname]

theorem exists_of_mem_vars {s : Scope} {v : Variable} (hv : v ∈ s.vars) :
    ∃ d ∈ s.declared, d.entity = .var v := by
  obtain ⟨d, hd, he⟩ := List.mem_filterMap.mp hv
  refine ⟨d, hd, ?_⟩
  split at he
  · next hvar => rw [hvar, Option.some.inj he]
  · cases he

/-- A variable of a scope is what its name is declared as. -/
theorem entity?_of_mem_vars {s : Scope} (h : (s.declared.map (·.name)).Nodup)
    (hname : ∀ key v, s.entity? key = some (.var v) → Text.lower v.name = key) {v : Variable}
    (hv : v ∈ s.vars) : s.entity? (Text.lower v.name) = some (.var v) := by
  obtain ⟨d, hd, hvar⟩ := exists_of_mem_vars hv
  have hentity : s.entity? d.name = some (.var v) := by rw [entity?, find?_of_mem h hd, ← hvar]; rfl
  rwa [hname d.name v hentity]

/-- The scope with one more declaration. -/
def add (s : Scope) (d : Declaration) : Scope := { s with declared := s.declared ++ [d] }

theorem find?_add {s : Scope} {d : Declaration} (h : s.find? d.name = none) (key : String) :
    (s.add d).find? key = if key = d.name then some d else s.find? key := by
  unfold Scope.find? at h
  simp only [find?, add, List.find?_append, List.find?_singleton]
  by_cases hk : key = d.name
  · subst hk
    simp [h]
  · simp [hk, Ne.symm hk]

theorem entity?_add {s : Scope} {d : Declaration} (h : s.find? d.name = none) (key : String) :
    (s.add d).entity? key = if key = d.name then some d.entity else s.entity? key := by
  rw [entity?, find?_add h]
  split <;> rfl

theorem nodup_names_add {s : Scope} (h : (s.declared.map (·.name)).Nodup) {d : Declaration}
    (hd : s.find? d.name = none) : ((s.add d).declared.map (·.name)).Nodup := by
  simp only [find?, List.find?_eq_none, beq_iff_eq] at hd
  simpa [add, List.nodup_append] using ⟨h, fun d' hd' => hd d' hd'⟩

/-- The scope with the routines of a name replaced. -/
def setRoutines (s : Scope) (key : String) (ids : List Nat) : Scope :=
  { s with declared := s.declared.map fun d =>
      if d.name == key then { d with entity := .routines ids } else d }

theorem find?_setRoutines {s : Scope} {name key : String} {ids : List Nat} :
    (s.setRoutines name ids).find? key =
      if key = name then (s.find? key).map fun d => { d with entity := .routines ids }
      else s.find? key := by
  simp only [find?, setRoutines, List.find?_map]
  have hname : ((fun d : Declaration => d.name == key) ∘ fun d =>
      if d.name == name then { d with entity := .routines ids } else d) = fun d => d.name == key := by
    funext d
    by_cases hd : d.name = name <;> simp [hd]
  rw [hname]
  cases hf : s.declared.find? fun d => d.name == key with
  | none => simp
  | some d =>
    have hd : d.name = key := by simpa using List.find?_some hf
    by_cases hk : key = name <;> simp [hd, hk]

theorem entity?_setRoutines {s : Scope} {name key : String} {ids : List Nat} :
    (s.setRoutines name ids).entity? key =
      if key = name then (s.entity? key).map fun _ => .routines ids else s.entity? key := by
  rw [entity?, entity?, find?_setRoutines]
  split
  · rw [Option.map_map, Option.map_map]
    rfl
  · rfl

theorem names_setRoutines (s : Scope) (key : String) (ids : List Nat) :
    (s.setRoutines key ids).declared.map (·.name) = s.declared.map (·.name) := by
  simp only [setRoutines, List.map_map]
  refine List.map_congr_left fun d _ => ?_
  by_cases hd : d.name = key <;> simp [hd]

end Scope

/-- A routine without its body. -/
def UserRoutine.heading (f : UserRoutine) : UserRoutine := { f with body := none }

namespace Arena

variable {a a' a'' : Arena}

@[simp] theorem scope_push (kind : ScopeKind) (name : String) (parent : Option Nat) (s : Nat) :
    (a.push kind name parent).2.scope s =
      if s = a.scopes.size then { kind, name, parent } else a.scope s := by
  simp only [scope, push, Array.getElem?_push]
  split <;> simp

@[simp] theorem scope_modifyScope (id s : Nat) (f : Scope → Scope) :
    (a.modifyScope id f).scope s =
      if s = id ∧ s < a.scopes.size then f (a.scope s) else a.scope s := by
  simp only [scope, modifyScope, Array.getElem?_modify]
  by_cases hs : s < a.scopes.size
  · by_cases he : id = s <;> simp [he, hs, eq_comm]
  · simp [hs]

@[simp] theorem size_modifyScope (id : Nat) (f : Scope → Scope) :
    (a.modifyScope id f).scopes.size = a.scopes.size := by simp [modifyScope]

@[simp] theorem function_modifyFunction (id n : Nat) (f : UserRoutine → UserRoutine) :
    (a.modifyFunction id f).function n =
      if n = id ∧ n < a.functions.size then f (a.function n) else a.function n := by
  simp only [function, modifyFunction, Array.getElem?_modify]
  by_cases hs : n < a.functions.size
  · by_cases he : id = n <;> simp [he, hs, eq_comm]
  · simp [hs]

theorem lt_of_entity {s : Nat} {key : String} {e : Entity} (h : (a.scope s).entity? key = some e) :
    s < a.scopes.size := by
  by_contra hs
  simp [scope, hs, default, Scope.entity?, Scope.find?] at h

/-- Everything that was declared is still there. -/
structure Grows (a a' : Arena) : Prop where
  scopes : a.scopes.size ≤ a'.scopes.size
  scope : ∀ s < a.scopes.size, (a.scope s).Within (a'.scope s)
  functions : a.functions.size ≤ a'.functions.size
  function : ∀ id < a.functions.size, (a'.function id).heading = (a.function id).heading
  native : ∀ (id : Nat) r, a.natives[id]? = some r → a'.natives[id]? = some r

theorem Grows.refl (a : Arena) : a.Grows a :=
  ⟨le_rfl, fun _ _ => .refl _, le_rfl, fun _ _ => rfl, fun _ _ h => h⟩

theorem Grows.trans (h : a.Grows a') (h' : a'.Grows a'') : a.Grows a'' where
  scopes := h.scopes.trans h'.scopes
  scope s hs := (h.scope s hs).trans (h'.scope s (hs.trans_le h.scopes))
  functions := h.functions.trans h'.functions
  function id hid := (h'.function id (hid.trans_le h.functions)).trans (h.function id hid)
  native id r hr := h'.native id r (h.native id r hr)

namespace Grows

theorem kind (h : a.Grows a') {s : Nat} (hs : s < a.scopes.size) :
    (a'.scope s).kind = (a.scope s).kind := (h.scope s hs).kind

theorem signature (h : a.Grows a') {id : Nat} (hid : id < a.functions.size) :
    (a'.function id).signature = (a.function id).signature :=
  congrArg (·.signature) (h.function id hid)

theorem ownScope (h : a.Grows a') {id : Nat} (hid : id < a.functions.size) :
    (a'.function id).scope = (a.function id).scope :=
  congrArg (·.scope) (h.function id hid)

theorem declaredIn (h : a.Grows a') {id : Nat} (hid : id < a.functions.size) :
    (a'.function id).declaredIn = (a.function id).declaredIn :=
  congrArg (·.declaredIn) (h.function id hid)

theorem var (h : a.Grows a') {s : Nat} {key : String} {v : Variable}
    (hv : (a.scope s).entity? key = some (.var v)) : (a'.scope s).entity? key = some (.var v) :=
  (h.scope s (lt_of_entity hv)).var key v hv

theorem push (kind : ScopeKind) (name : String) (parent : Option Nat) :
    a.Grows (a.push kind name parent).2 where
  scopes := by simp [Arena.push]
  scope s hs := by rw [scope_push, if_neg hs.ne]; exact .refl _
  functions := le_rfl
  function _ _ := rfl
  native _ _ h := h

theorem modifyScope {id : Nat} {f : Scope → Scope} (hf : (a.scope id).Within (f (a.scope id))) :
    a.Grows (a.modifyScope id f) where
  scopes := by simp
  scope s hs := by
    rw [scope_modifyScope]
    split
    · next h => rw [h.1]; exact hf
    · exact .refl _
  functions := le_rfl
  function _ _ := rfl
  native _ _ h := h

theorem modifyFunction {id : Nat} {f : UserRoutine → UserRoutine}
    (hf : (f (a.function id)).heading = (a.function id).heading) :
    a.Grows (a.modifyFunction id f) where
  scopes := le_rfl
  scope _ _ := .refl _
  functions := by simp [Arena.modifyFunction]
  function n _ := by
    rw [function_modifyFunction]
    split
    · next h => rw [h.1, hf]
    · rfl
  native _ _ h := h

end Grows

theorem declare_eq_ok {s : Nat} {name : String} {pos : Position} {entity : Entity}
    (h : a.declare s name pos entity = .ok a') :
    (a.scope s).find? (Text.lower name) = none ∧
      a' = a.modifyScope s (·.add ⟨Text.lower name, pos, entity⟩) := by
  unfold declare at h
  dsimp only at h
  split at h
  · cases h
  · next hf => cases h; exact ⟨hf, rfl⟩

theorem Grows.declare {s : Nat} {name : String} {pos : Position} {entity : Entity}
    (h : a.declare s name pos entity = .ok a') : a.Grows a' := by
  obtain ⟨hf, rfl⟩ := declare_eq_ok h
  refine .modifyScope ⟨rfl, rfl, fun key v hv => ?_⟩
  rw [Scope.entity?_add hf, if_neg, hv]
  rintro rfl
  simp [Scope.entity?, hf] at hv

end Arena

end Pascal
