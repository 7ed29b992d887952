import Pascal.Proofs.Scope.Grows

/-!
# How scopes and routines are nested

Every routine has a scope of its own inside the scope that declares it, and only routines have scopes
inside others. A name is declared once in a scope.
-/

namespace Pascal

/-- The type of the storage of a parameter: further arguments are an array. -/
def Parameter.storedTy (p : Parameter) : Ty :=
  match p.ty with
  | .varargs element => .openArray element
  | ty => ty

/-- The variables that the heading of a routine declares. -/
def UserRoutine.headed (f : UserRoutine) : List Variable :=
  (f.signature.params.map fun p => ⟨p.name, p.storedTy, f.pos, none⟩) ++
    f.signature.result.toList.map fun ty => ⟨resultName, ty, f.pos, none⟩

/-- What a scope with a number declares and imports in an arena. -/
structure Scope.Sound (a : Arena) (s : Nat) (sc : Scope) : Prop where
  routines : ∀ key ids, sc.entity? key = some (.routines ids) →
    ∀ id ∈ ids, id < a.functions.size ∧ (a.function id).declaredIn = s
  var : ∀ key v, sc.entity? key = some (.var v) → Text.lower v.name = key
  imports : ∀ u, .unit u ∈ sc.imports → u < a.scopes.size ∧ (a.scope u).kind = .unit
  distinct : (sc.declared.map (·.name)).Nodup

namespace Scope.Sound

variable {a a' : Arena} {s : Nat} {sc : Scope}

theorem grow (h : sc.Sound a s) (hg : a.Grows a') : sc.Sound a' s where
  routines key ids hids id hid := by
    obtain ⟨hlt, hin⟩ := h.routines key ids hids id hid
    exact ⟨hlt.trans_le hg.functions, (hg.declaredIn hlt).trans hin⟩
  var := h.var
  imports u hu := by
    obtain ⟨hlt, hkind⟩ := h.imports u hu
    exact ⟨hlt.trans_le hg.scopes, (hg.kind hlt).trans hkind⟩
  distinct := h.distinct

theorem empty (kind : ScopeKind) (name : String) (parent : Option Nat) :
    Scope.Sound a s { kind, name, parent } where
  routines _ _ h := by simp [Scope.entity?, Scope.find?] at h
  var _ _ h := by simp [Scope.entity?, Scope.find?] at h
  imports _ h := by simp at h
  distinct := by simp

theorem add (h : sc.Sound a s) {d : Declaration} (hd : sc.find? d.name = none)
    (hroutines : ∀ ids, d.entity = .routines ids →
      ∀ id ∈ ids, id < a.functions.size ∧ (a.function id).declaredIn = s)
    (hvar : ∀ v, d.entity = .var v → Text.lower v.name = d.name) : (sc.add d).Sound a s where
  routines key ids hids := by
    rw [Scope.entity?_add hd] at hids
    split at hids
    · exact hroutines ids (Option.some.inj hids)
    · exact h.routines key ids hids
  var key v hv := by
    rw [Scope.entity?_add hd] at hv
    split at hv
    · next hk => rw [hk]; exact hvar v (Option.some.inj hv)
    · exact h.var key v hv
  imports := h.imports
  distinct := Scope.nodup_names_add h.distinct hd

theorem setRoutines (h : sc.Sound a s) {key : String} {ids : List Nat}
    (hids : ∀ id ∈ ids, id < a.functions.size ∧ (a.function id).declaredIn = s) :
    (sc.setRoutines key ids).Sound a s where
  routines k ids' h' := by
    rw [Scope.entity?_setRoutines] at h'
    split at h'
    · obtain ⟨_, -, he⟩ := Option.map_eq_some_iff.mp h'
      cases he
      exact hids
    · exact h.routines k ids' h'
  var k v h' := by
    rw [Scope.entity?_setRoutines] at h'
    split at h'
    · obtain ⟨_, -, he⟩ := Option.map_eq_some_iff.mp h'
      cases he
    · exact h.var k v h'
  imports := h.imports
  distinct := Scope.names_setRoutines sc key ids ▸ h.distinct

theorem withImport (h : sc.Sound a s) {i : Import}
    (hi : ∀ u, i = .unit u → u < a.scopes.size ∧ (a.scope u).kind = .unit) :
    Scope.Sound a s (if sc.imports.contains i then sc else { sc with imports := sc.imports ++ [i] }) := by
  split
  · exact h
  · refine ⟨h.routines, h.var, fun u hu => ?_, h.distinct⟩
    rcases List.mem_append.mp hu with hu | hu
    · exact h.imports u hu
    · exact hi u (List.mem_singleton.mp hu).symm

end Scope.Sound

namespace Arena

variable {a a' : Arena}

structure Nested (a : Arena) : Prop where
  outer : ∀ s parent, (a.scope s).parent = some parent →
    parent < s ∧ ∃ id, (a.scope s).kind = .function id
  owner : ∀ s id, (a.scope s).kind = .function id → id < a.functions.size ∧
    (a.function id).scope = s ∧ (a.scope s).parent = some (a.function id).declaredIn
  own : ∀ id < a.functions.size, (a.function id).scope < a.scopes.size ∧
    (a.scope (a.function id).scope).kind = .function id
  sound : ∀ s, (a.scope s).Sound a s
  natives : ∀ l ∈ a.libraries, ∀ r ∈ l.routines, r.2 < a.natives.size

/-- The headings of all routines have been declared in their scopes. -/
def Headed (a : Arena) : Prop :=
  ∀ id < a.functions.size, ∀ v ∈ (a.function id).headed,
    (a.scope (a.function id).scope).entity? (Text.lower v.name) = some (.var v)

theorem lower_resultName : Text.lower resultName = resultName := by decide +kernel

/-- A function has declared a variable for its result. -/
theorem Headed.result (h : a.Headed) {id : Nat} (hid : id < a.functions.size) {t : Ty}
    (ht : (a.function id).signature.result = some t) :
    (a.scope (a.function id).scope).entity? resultName =
      some (.var ⟨resultName, t, (a.function id).pos, none⟩) := by
  have hv := h id hid ⟨resultName, t, (a.function id).pos, none⟩
    (List.mem_append_right _ (by simp [ht]))
  rwa [lower_resultName] at hv

theorem Nested.empty : Nested {} where
  outer _ _ h := by simp [Arena.scope, default] at h
  owner _ _ h := by simp [Arena.scope, default] at h
  own _ h := by simp at h
  sound _ := by
    rw [show Arena.scope {} _ = default by simp [Arena.scope]]
    exact Scope.Sound.empty _ _ _
  natives _ h := by simp at h

theorem Headed.empty : Headed {} := fun _ h => by simp at h

theorem Nested.push (h : a.Nested) {kind : ScopeKind} {name : String}
    (hkind : kind = .program ∨ kind = .unit) : (a.push kind name none).2.Nested where
  outer s parent hs := by
    rw [scope_push] at hs ⊢
    split at hs
    · cases hs
    · next he => rw [if_neg he]; exact h.outer s parent hs
  owner s id hs := by
    rw [scope_push] at hs ⊢
    split at hs
    · rcases hkind with rfl | rfl <;> cases hs
    · next he => rw [if_neg he]; exact h.owner s id hs
  own id hid := by
    obtain ⟨hlt, hkind⟩ := h.own id hid
    refine ⟨hlt.trans_le (Grows.push ..).scopes, ?_⟩
    exact ((Grows.push ..).kind hlt).trans hkind
  sound s := by
    rw [scope_push]
    split
    · exact .empty ..
    · exact (h.sound s).grow (.push ..)
  natives := h.natives

/-- Changing what a scope declares and imports. -/
theorem Nested.modifyScope (h : a.Nested) {id : Nat} {f : Scope → Scope}
    (hf : (a.scope id).Within (f (a.scope id))) (hs : (f (a.scope id)).Sound a id) :
    (a.modifyScope id f).Nested := by
  have hg : a.Grows (a.modifyScope id f) := .modifyScope hf
  have hkind : ∀ s, ((a.modifyScope id f).scope s).kind = (a.scope s).kind ∧
      ((a.modifyScope id f).scope s).parent = (a.scope s).parent := by
    intro s
    rw [scope_modifyScope]
    split
    · next he => rw [he.1]; exact ⟨hf.kind, hf.parent⟩
    · exact ⟨rfl, rfl⟩
  refine ⟨?_, ?_, ?_, ?_, h.natives⟩
  · intro s parent hp
    rw [(hkind s).2] at hp
    rw [(hkind s).1]
    exact h.outer s parent hp
  · intro s n hn
    rw [(hkind s).1] at hn
    rw [(hkind s).2]
    exact h.owner s n hn
  · intro n hn
    obtain ⟨hlt, hk⟩ := h.own n hn
    exact ⟨hlt.trans_le hg.scopes, (hkind _).1.trans hk⟩
  · intro s
    rw [scope_modifyScope]
    split
    · next he => rw [he.1]; exact hs.grow hg
    · exact (h.sound s).grow hg

theorem Nested.modifyFunction (h : a.Nested) {id : Nat} {f : UserRoutine → UserRoutine}
    (hf : (f (a.function id)).heading = (a.function id).heading) :
    (a.modifyFunction id f).Nested := by
  have hg : a.Grows (a.modifyFunction id f) := .modifyFunction hf
  have hsize : (a.modifyFunction id f).functions.size = a.functions.size := by
    simp [Arena.modifyFunction]
  refine ⟨h.outer, ?_, ?_, fun s => (h.sound s).grow hg, h.natives⟩
  · intro s n hn
    obtain ⟨hlt, hscope, hparent⟩ := h.owner s n hn
    exact ⟨hsize ▸ hlt, (hg.ownScope hlt).trans hscope, by rw [hg.declaredIn hlt]; exact hparent⟩
  · intro n hn
    rw [hsize] at hn
    rw [hg.ownScope hn]
    exact h.own n hn

/-- The arena with a new routine that is not declared yet. -/
theorem scope_addFunction (s d : Nat) (name : String) (sig : Signature) (p : Position) :
    (a.addFunction d name sig p).2.scope s = if s = a.scopes.size then
      { kind := .function a.functions.size, name, parent := some d } else a.scope s :=
  scope_push ..

theorem function_addFunction (n d : Nat) (name : String) (sig : Signature) (p : Position) :
    (a.addFunction d name sig p).2.function n = if n = a.functions.size then
      { name, signature := sig, scope := a.scopes.size, declaredIn := d, pos := p, body := none }
      else a.function n := by
  simp only [function, addFunction, push, Array.getElem?_push]
  split <;> simp

theorem Grows.addFunction (d : Nat) (name : String) (sig : Signature) (p : Position) :
    a.Grows (a.addFunction d name sig p).2 where
  scopes := by simp [Arena.addFunction, Arena.push]
  scope s hs := by rw [scope_addFunction, if_neg hs.ne]; exact .refl _
  functions := by simp [Arena.addFunction, Arena.push]
  function id hid := by rw [function_addFunction, if_neg hid.ne]
  native _ _ h := h

theorem Nested.addFunction (h : a.Nested) {d : Nat} (hd : d < a.scopes.size) (name : String)
    (sig : Signature) (p : Position) : (a.addFunction d name sig p).2.Nested := by
  have hg : a.Grows (a.addFunction d name sig p).2 := .addFunction ..
  have hsize : (a.addFunction d name sig p).2.functions.size = a.functions.size + 1 := by
    simp [Arena.addFunction, Arena.push]
  have hscopes : (a.addFunction d name sig p).2.scopes.size = a.scopes.size + 1 := by
    simp [Arena.addFunction, Arena.push]
  refine ⟨?_, ?_, ?_, ?_, h.natives⟩
  · intro s parent hs
    rw [scope_addFunction] at hs ⊢
    split at hs
    · next he =>
      cases hs
      rw [if_pos he, he]
      exact ⟨hd, _, rfl⟩
    · next he => rw [if_neg he]; exact h.outer s parent hs
  · intro s n hn
    rw [scope_addFunction] at hn ⊢
    split at hn
    · next he =>
      cases hn
      rw [if_pos he, function_addFunction, if_pos rfl, hsize]
      exact ⟨Nat.lt_succ_self _, he.symm, rfl⟩
    · next he =>
      obtain ⟨hlt, hscope, hparent⟩ := h.owner s n hn
      rw [if_neg he, function_addFunction, if_neg hlt.ne, hsize]
      exact ⟨Nat.lt_succ_of_lt hlt, hscope, hparent⟩
  · intro n hn
    rw [function_addFunction]
    split
    · next he => rw [scope_addFunction, if_pos rfl, hscopes, he]; exact ⟨Nat.lt_succ_self _, rfl⟩
    · next he =>
      obtain ⟨hlt, hkind⟩ := h.own n (by omega)
      rw [scope_addFunction, if_neg hlt.ne, hscopes]
      exact ⟨Nat.lt_succ_of_lt hlt, hkind⟩
  · intro s
    rw [scope_addFunction]
    split
    · exact .empty ..
    · exact (h.sound s).grow hg

end Arena

end Pascal
