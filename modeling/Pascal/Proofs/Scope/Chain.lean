import Pascal.Proofs.Scope.Resolve

/-!
# The scopes around a scope

A scope is made after the one around it, and only scopes of routines have one around them. So the scopes
around a scope are those of routines up to the outermost one, which is the program or a unit.
-/

namespace Pascal

namespace Arena

variable {a a' : Arena} {scope s : Nat}

private theorem chainWithin_eq (h : ∀ s parent, (a.scope s).parent = some parent → parent < s)
    {fuel fuel' : Nat} (hf : scope < fuel) (hf' : scope < fuel') :
    a.chainWithin fuel scope = a.chainWithin fuel' scope := by
  induction fuel generalizing scope fuel' with
  | zero => omega
  | succ fuel ih =>
    obtain ⟨fuel', rfl⟩ : ∃ n, fuel' = n + 1 := ⟨fuel' - 1, by omega⟩
    rw [chainWithin, chainWithin]
    cases hp : (a.scope scope).parent with
    | none => rfl
    | some parent =>
      have hlt := h scope parent hp
      have hparent : a.chainWithin fuel parent = a.chainWithin fuel' parent :=
        ih (by omega) (by omega)
      simp only [hparent]

/-- Where scopes are made after the ones around them, a chain goes on to the outermost one. -/
theorem chain_eq_of_outer (h : ∀ s parent, (a.scope s).parent = some parent → parent < s)
    (scope : Nat) : a.chain scope = scope :: ((a.scope scope).parent.map a.chain).getD [] := by
  rw [chain, chainWithin]
  cases hp : (a.scope scope).parent with
  | none => rfl
  | some parent =>
    have hlt := h scope parent hp
    have hscope : scope < a.scopes.size := by
      by_contra hge
      simp [Arena.scope, hge, default] at hp
    simp only [Option.map_some, Option.getD_some, chain]
    rw [chainWithin_eq h (by omega : parent < a.scopes.size) (by omega : parent < a.scopes.size + 1)]

/-- A chain goes on with the chain of the scope around. -/
theorem chain_eq (hn : a.Nested) (scope : Nat) :
    a.chain scope = scope :: ((a.scope scope).parent.map a.chain).getD [] :=
  chain_eq_of_outer (fun s parent hp => (hn.outer s parent hp).1) scope

theorem mem_chain_self (hn : a.Nested) : scope ∈ a.chain scope := by
  rw [chain_eq hn]
  exact List.mem_cons_self

/-- The scopes around a scope of a chain are the rest of the chain. -/
theorem chain_suffix (hn : a.Nested) (h : s ∈ a.chain scope) : a.chain s <:+ a.chain scope := by
  induction scope using Nat.strong_induction_on with
  | _ scope ih =>
    rw [chain_eq hn scope] at h ⊢
    rcases List.mem_cons.mp h with rfl | h
    · exact (chain_eq hn s).symm ▸ List.suffix_rfl
    · cases hp : (a.scope scope).parent with
      | none => simp [hp] at h
      | some parent =>
        simp only [hp, Option.map_some, Option.getD_some] at h ⊢
        exact (ih parent (hn.outer scope parent hp).1 h).trans (List.suffix_cons _ _)

theorem le_of_mem_chain (hn : a.Nested) (h : s ∈ a.chain scope) : s ≤ scope := by
  induction scope using Nat.strong_induction_on with
  | _ scope ih =>
    rw [chain_eq hn scope] at h
    rcases List.mem_cons.mp h with rfl | h
    · exact le_rfl
    · cases hp : (a.scope scope).parent with
      | none => simp [hp] at h
      | some parent =>
        simp only [hp, Option.map_some, Option.getD_some] at h
        have hlt := (hn.outer scope parent hp).1
        exact (ih parent hlt h).trans hlt.le

theorem nodup_chain (hn : a.Nested) (scope : Nat) : (a.chain scope).Nodup := by
  induction scope using Nat.strong_induction_on with
  | _ scope ih =>
    rw [chain_eq hn scope]
    cases hp : (a.scope scope).parent with
    | none => simp
    | some parent =>
      have hlt := (hn.outer scope parent hp).1
      refine List.nodup_cons.mpr ⟨fun h => ?_, ih parent hlt⟩
      exact absurd (le_of_mem_chain hn h) (by omega)

/-- The scopes around a scope stay the same. -/
theorem Grows.chain (hg : a.Grows a') (hn : a.Nested) (hn' : a'.Nested)
    (hs : scope < a.scopes.size) : a'.chain scope = a.chain scope := by
  induction scope using Nat.strong_induction_on with
  | _ scope ih =>
    rw [chain_eq hn, chain_eq hn', (hg.scope scope hs).parent]
    cases hp : (a.scope scope).parent with
    | none => rfl
    | some parent =>
      have hlt := (hn.outer scope parent hp).1
      simp only [Option.map_some, Option.getD_some, ih parent hlt (hlt.trans hs)]

theorem Visible.grow (h : a.Visible scope s) (hg : a.Grows a') (hn : a.Nested) (hn' : a'.Nested)
    (hscope : scope < a.scopes.size) (hs : s < a.scopes.size) : a'.Visible scope s := by
  refine h.imp (fun h => ?_) fun h => (hg.kind hs).trans h
  rw [hg.chain hn hn' hscope]
  exact h

/-- Where a routine is declared lies before its own scope. -/
theorem Nested.declaredIn_lt (hn : a.Nested) {id : Nat} (hid : id < a.functions.size) :
    (a.function id).declaredIn < a.scopes.size := by
  obtain ⟨hlt, hkind⟩ := hn.own id hid
  exact ((hn.outer _ _ (hn.owner _ id hkind).2.2).1).trans hlt

theorem Callable.grow {callee : Callee} (h : a.Callable scope callee) (hg : a.Grows a')
    (hn : a.Nested) (hn' : a'.Nested) (hscope : scope < a.scopes.size) :
    a'.Callable scope callee := by
  cases callee with
  | user id =>
    obtain ⟨hid, hv⟩ := h
    refine ⟨hid.trans_le hg.functions, ?_⟩
    rw [hg.declaredIn hid]
    exact hv.grow hg hn hn' hscope (hn.declaredIn_lt hid)
  | native id =>
    have hlt : id < a.natives.size := h
    have hr := hg.native id _ (Array.getElem?_eq_getElem hlt)
    exact (Array.getElem?_eq_some_iff.mp hr).1

/-- The scopes of the routines around a scope, the innermost one first. -/
def routineScopes (a : Arena) (scope : Nat) : List Nat :=
  (a.chain scope).filter fun s => (a.functionOf? s).isSome

theorem functionOf?_eq_some {id : Nat} (h : a.functionOf? s = some id) :
    (a.scope s).kind = .function id := by
  unfold functionOf? at h
  split at h
  · next h' => rw [h', Option.some.inj h]
  · cases h

/-- A routine stands inside those around its declaration. -/
theorem routineScopes_function (hn : a.Nested) {id : Nat} (hid : id < a.functions.size) :
    a.routineScopes (a.function id).scope =
      (a.function id).scope :: a.routineScopes (a.function id).declaredIn := by
  have hkind := (hn.own id hid).2
  have hf : (a.functionOf? (a.function id).scope).isSome := by simp [functionOf?, hkind]
  rw [routineScopes, chain_eq hn, (hn.owner _ id hkind).2.2]
  simp [hf, routineScopes]

/-- No routine stands around a program or a unit. -/
theorem routineScopes_eq_nil (hn : a.Nested) (h : a.functionOf? scope = none) :
    a.routineScopes scope = [] := by
  have hp : (a.scope scope).parent = none := by
    by_contra hp
    obtain ⟨parent, hp⟩ := Option.ne_none_iff_exists'.mp hp
    obtain ⟨-, id, hk⟩ := hn.outer scope parent hp
    simp [functionOf?, hk] at h
  simp [routineScopes, chain_eq hn scope, hp, h]

theorem routineScopes_eq_cons (hn : a.Nested) (h : (a.functionOf? scope).isSome) :
    a.routineScopes scope = scope :: (a.routineScopes scope).tail := by
  rw [routineScopes, chain_eq hn]
  simp [h]

theorem nodup_routineScopes (hn : a.Nested) (scope : Nat) : (a.routineScopes scope).Nodup :=
  (nodup_chain hn scope).filter _

/-- A routine whose scope is visible stands around. -/
theorem Visible.mem_routineScopes (h : a.Visible scope s) (hf : (a.functionOf? s).isSome) :
    s ∈ a.routineScopes scope := by
  rcases h with h | h
  · exact List.mem_filter.mpr ⟨h, hf⟩
  · simp [functionOf?, h] at hf

/-- The routines around a routine of a chain are the rest of the chain. -/
theorem routineScopes_suffix (hn : a.Nested) (h : s ∈ a.routineScopes scope) :
    a.routineScopes s <:+ a.routineScopes scope :=
  (chain_suffix hn (List.mem_filter.mp h).1).filter _

end Arena

namespace Arena

variable {a a' : Arena} {s t : Nat}

/-- Two arenas differ in the bodies of routines only. -/
structure Alike (a a' : Arena) : Prop where
  scopes : a'.scopes = a.scopes
  size : a'.functions.size = a.functions.size
  heading : ∀ id, (a'.function id).heading = (a.function id).heading
  natives : a'.natives = a.natives
  libraries : a'.libraries = a.libraries

namespace Alike

theorem scope (h : a.Alike a') (s : Nat) : a'.scope s = a.scope s := by
  rw [Arena.scope, Arena.scope, h.scopes]

theorem signature (h : a.Alike a') (id : Nat) : (a'.function id).signature = (a.function id).signature :=
  congrArg (·.signature) (h.heading id)

theorem ownScope (h : a.Alike a') (id : Nat) : (a'.function id).scope = (a.function id).scope :=
  congrArg (·.scope) (h.heading id)

theorem declaredIn (h : a.Alike a') (id : Nat) :
    (a'.function id).declaredIn = (a.function id).declaredIn :=
  congrArg (·.declaredIn) (h.heading id)

theorem nested (h : a.Alike a') (hn : a.Nested) : a'.Nested where
  outer s parent hs := by
    rw [h.scope] at hs ⊢
    exact hn.outer s parent hs
  owner s id hs := by
    rw [h.scope] at hs ⊢
    rw [h.size, h.ownScope, h.declaredIn]
    exact hn.owner s id hs
  own id hid := by
    rw [h.size] at hid
    rw [h.ownScope, h.scopes, h.scope]
    exact hn.own id hid
  sound s := by
    rw [h.scope]
    have hs := hn.sound s
    refine ⟨fun key ids hids id hid => ?_, hs.var, fun u hu => ?_, hs.distinct⟩
    · rw [h.size, h.declaredIn]
      exact hs.routines key ids hids id hid
    · rw [h.scopes, h.scope]
      exact hs.imports u hu
  natives l hl r hr := by
    rw [h.libraries] at hl
    rw [h.natives]
    exact hn.natives l hl r hr

theorem headed (h : a.Alike a') (hh : a.Headed) : a'.Headed := by
  intro id hid v hv
  rw [h.size] at hid
  have hheaded : (a'.function id).headed = (a.function id).headed := by
    have hpos : (a'.function id).pos = (a.function id).pos := congrArg (·.pos) (h.heading id)
    simp only [UserRoutine.headed, h.signature, hpos]
  rw [h.scope, h.ownScope]
  exact hh id hid v (hheaded ▸ hv)

theorem chain (h : a.Alike a') (s : Nat) : a'.chain s = a.chain s := by
  have hwithin : ∀ fuel s, a'.chainWithin fuel s = a.chainWithin fuel s := by
    intro fuel
    induction fuel with
    | zero => exact fun s => rfl
    | succ fuel ih =>
      intro s
      rw [chainWithin, chainWithin, h.scope]
      cases (a.scope s).parent with
      | none => rfl
      | some parent => exact congrArg _ (ih parent)
  rw [Arena.chain, Arena.chain, h.scopes, hwithin]

theorem visible (h : a.Alike a') : a'.Visible s t ↔ a.Visible s t := by
  rw [Visible, Visible, h.chain, h.scope]

theorem callable (h : a.Alike a') {callee : Callee} :
    a'.Callable s callee ↔ a.Callable s callee := by
  cases callee with
  | user id => simp only [Callable, h.size, h.declaredIn, h.visible]
  | native id => simp only [Callable, h.natives]

end Alike

end Arena

/-- A result is the variable of that name in the scope of a routine around. -/
theorem Context.IsResult.declared {ctx : Context} {p : Place} {t : Ty} (h : ctx.IsResult p t)
    (hn : ctx.arena.Nested) (hh : ctx.arena.Headed) : ∃ scope id, p = .var ⟨scope, resultName⟩ ∧
      scope ∈ ctx.arena.chain ctx.scope ∧ id < ctx.arena.functions.size ∧
      (ctx.arena.function id).signature.result = some t ∧
      (ctx.arena.scope scope).entity? resultName =
        some (.var ⟨resultName, t, (ctx.arena.function id).pos, none⟩) := by
  have hresult : ∃ scope id, p = .var ⟨scope, resultName⟩ ∧ scope ∈ ctx.arena.chain ctx.scope ∧
      ctx.arena.functionOf? scope = some id ∧
      (ctx.arena.function id).signature.result = some t := by
    rcases h with h | ⟨name, h⟩
    · obtain ⟨id, hid, h⟩ := Option.bind_eq_some_iff.mp h
      obtain ⟨ty, hty, h⟩ := Option.bind_eq_some_iff.mp h
      cases h
      exact ⟨_, id, rfl, Arena.mem_chain_self hn, hid, hty⟩
    · obtain ⟨scope, hscope, h⟩ := List.exists_of_findSome?_eq_some h
      obtain ⟨id, hid, h⟩ := Option.bind_eq_some_iff.mp h
      obtain ⟨ty, hty, h⟩ := Option.bind_eq_some_iff.mp h
      split at h <;> cases h
      exact ⟨scope, id, rfl, hscope, hid, hty⟩
  obtain ⟨scope, id, hp, hscope, hid, ht⟩ := hresult
  obtain ⟨hlt, hs, -⟩ := hn.owner scope id (Arena.functionOf?_eq_some hid)
  exact ⟨scope, id, hp, hscope, hlt, ht, hs ▸ hh.result hlt ht⟩

end Pascal
