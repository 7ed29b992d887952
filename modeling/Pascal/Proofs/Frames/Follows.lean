import Mathlib.Data.List.Nodup
import Mathlib.Data.List.TakeWhile
import Pascal.Proofs.Frames.Scoped

/-!
# Frames around scopes

The frames that code sees are those of the routines around it. A call keeps this up, since the routines
that it can name are declared in one of the scopes around it or outside of all routines.
-/

namespace Pascal

variable {a : Arena} {scope : Nat} {chain : Chain}

/-- A frame holds a slot for every variable of its scope. -/
def Frame.Complete (a : Arena) (f : Frame) : Prop :=
  ∀ v ∈ (a.scope f.scope).vars, (f.slot? (Text.lower v.name)).isSome

/-- A chain holds a frame for each of the routines around a scope, the innermost one first. -/
structure Chain.Follows (a : Arena) (chain : Chain) (scope : Nat) : Prop where
  scopes : chain.map (·.scope) = a.routineScopes scope
  complete : ∀ f ∈ chain, f.Complete a

theorem Frame.slot?_isSome {f : Frame} {key : String} :
    (f.slot? key).isSome ↔ ∃ slot ∈ f.slots, slot.1 = key := by
  simp [slot?]

/-- All variables get slots. -/
theorem World.mem_addSlots {vs : List Variable} {w : World} {slots : List (String × Ref)}
    {key : String} (h : (∃ slot ∈ slots, slot.1 = key) ∨ ∃ v ∈ vs, Text.lower v.name = key) :
    ∃ slot ∈ (w.addSlots slots vs).1, slot.1 = key := by
  induction vs generalizing w slots with
  | nil => simpa [addSlots] using h
  | cons v vs ih =>
    rw [addSlots]
    dsimp only
    split
    · next hany =>
      refine ih ?_
      rcases h with h | ⟨v', hv, rfl⟩
      · exact .inl h
      · rcases List.mem_cons.mp hv with rfl | hv
        · exact .inl (by simpa using hany)
        · exact .inr ⟨v', hv, rfl⟩
    · refine ih ?_
      rcases h with ⟨slot, hs, rfl⟩ | ⟨v', hv, rfl⟩
      · exact .inl ⟨slot, List.mem_cons_of_mem _ hs, rfl⟩
      · rcases List.mem_cons.mp hv with rfl | hv
        · exact .inl ⟨_, List.mem_cons_self, rfl⟩
        · exact .inr ⟨v', hv, rfl⟩

/-- A new activation has slots for all variables of its routine. -/
theorem UserRoutine.newFrame_complete {f : UserRoutine} {passed : List Passed} {w : World} :
    (f.newFrame (a.scope f.scope).vars passed w).1.Complete a := fun v hv =>
  Frame.slot?_isSome.mpr (World.mem_addSlots (.inr ⟨v, hv, rfl⟩))

/-- The frame of a function holds its result. -/
theorem Frame.Complete.result {f : Frame} (h : f.Complete a) (hh : a.Headed) {id : Nat}
    (hid : id < a.functions.size) (hf : f.scope = (a.function id).scope)
    (hresult : (a.function id).signature.result.isSome) : (f.slot? resultName).isSome := by
  obtain ⟨t, ht⟩ := Option.isSome_iff_exists.mp hresult
  have hslot := h _ (hf ▸ Scope.mem_vars (hh.result hid ht))
  rwa [Arena.lower_resultName] at hslot

namespace Chain.Follows

/-- The frames from that of a scope on are those around this scope. -/
theorem dropWhile (h : chain.Follows a scope) (hn : a.Nested) {s : Nat}
    (hs : s ∈ a.routineScopes scope ∨ a.functionOf? s = none) :
    Follows a (chain.dropWhile (·.scope != s)) s := by
  have hmap : (chain.dropWhile (·.scope != s)).map (·.scope) =
      (a.routineScopes scope).dropWhile (· != s) := by
    rw [← h.scopes, List.dropWhile_map]
    rfl
  refine ⟨?_, fun f hf => h.complete f ((List.dropWhile_suffix _).subset hf)⟩
  rw [hmap]
  rcases hs with hs | hs
  · obtain ⟨inner, hinner⟩ := Arena.routineScopes_suffix hn hs
    have hnodup := Arena.nodup_routineScopes hn scope
    have hself := Arena.routineScopes_eq_cons hn (List.mem_filter.mp hs).2
    rw [← hinner] at hnodup ⊢
    rw [List.dropWhile_append_of_pos fun s' hs' => ?_, hself]
    · simp
    · have hne : s' ≠ s := by
        rintro rfl
        exact (List.disjoint_of_nodup_append hnodup) hs' (by rw [hself]; exact List.mem_cons_self)
      simpa using hne
  · rw [Arena.routineScopes_eq_nil hn hs, List.dropWhile_eq_nil_iff]
    rintro s' hs'
    have hsome := (List.mem_filter.mp hs').2
    have hne : s' ≠ s := by
      rintro rfl
      rw [hs] at hsome
      cases hsome
    simpa using hne

/-- The current frame is that of the scope. -/
theorem scope_eq {f : Frame} {outer : Chain} (h : Follows a (f :: outer) scope) (hn : a.Nested) :
    f.scope = scope := by
  have hscopes := h.scopes
  cases hroutine : a.functionOf? scope with
  | none =>
    rw [Arena.routineScopes_eq_nil hn hroutine] at hscopes
    cases hscopes
  | some n =>
    rw [Arena.routineScopes_eq_cons hn (by simp [hroutine])] at hscopes
    exact (List.cons.inj hscopes).1

/-- The frames around a routine that can be called begin with that of the scope that declares it. -/
theorem outerFrames (h : chain.Follows a scope) (hn : a.Nested) {id : Nat}
    (hc : a.Callable scope (.user id)) :
    Follows a ((a.function id).outerFrames chain) (a.function id).declaredIn := by
  refine h.dropWhile hn ?_
  cases hroutine : a.functionOf? (a.function id).declaredIn with
  | none => exact .inr rfl
  | some n => exact .inl (hc.2.mem_routineScopes (by simp [hroutine]))

/-- A new frame goes in front of them. -/
theorem cons {id : Nat} (h : chain.Follows a (a.function id).declaredIn) (hn : a.Nested)
    (hid : id < a.functions.size) {f : Frame} (hf : f.scope = (a.function id).scope)
    (hcomplete : f.Complete a) : Follows a (f :: chain) (a.function id).scope where
  scopes := by rw [List.map_cons, h.scopes, hf, Arena.routineScopes_function hn hid]
  complete := List.forall_mem_cons.mpr ⟨hcomplete, h.complete⟩

end Chain.Follows

namespace Env

/-- The code of a program stands in its scopes, and there is storage for all that no routine holds. -/
structure Scoped (env : Env) : Prop where
  program : env.program.Scoped
  globals : ∀ s < env.program.arena.scopes.size, env.program.arena.functionOf? s = none →
    ∃ f, env.globals.find? (·.scope == s) = some f ∧ f.Complete env.program.arena

end Env

/-!
## Variables have storage

A variable that a scope can name belongs to the frame of its scope, either to the one around or to the
global one, and this frame has a slot for it.
-/

variable {env : Env}

/-- A variable named by code with a chain of frames belongs to a frame: to the activation of the routine
around that declares it, which sees the frames behind it, or else to a global frame. -/
structure Env.Owns (env : Env) (chain : Chain) (v : VarRef) (f : Frame) : Prop where
  scope : f.scope = v.scope
  frame : (∃ outer, f :: outer <:+ chain ∧
      (f :: outer).map (·.scope) = env.program.arena.routineScopes v.scope) ∨
    env.program.arena.functionOf? v.scope = none ∧ f ∈ env.globals

namespace Env.Scoped

/-- Naming a variable finds its slot in the frame that it belongs to. -/
theorem variableRef (h : env.Scoped) (hc : chain.Follows env.program.arena scope) {v : VarRef}
    (hv : env.program.arena.sees scope v) :
    ∃ f r, env.Owns chain v f ∧ (v.name, r) ∈ f.slots ∧ env.variableRef chain v = .ok r := by
  classical
  have hn := h.program.nested
  obtain ⟨hvisible, x, hx⟩ := decide_eq_true_iff.mp hv
  have hslot : ∀ {f : Frame}, f.scope = v.scope → f.Complete env.program.arena →
      ∃ r, (v.name, r) ∈ f.slots ∧ f.slot? v.name = some r := by
    intro f hf hcomplete
    have hname := (hn.sound v.scope).var _ _ hx
    have hmem : x ∈ (env.program.arena.scope v.scope).vars := by
      obtain ⟨d, hd, he⟩ := Option.map_eq_some_iff.mp hx
      exact List.mem_filterMap.mpr ⟨d, List.mem_of_find?_eq_some hd, by rw [he]⟩
    have hsome := hcomplete x (hf ▸ hmem)
    rw [hname] at hsome
    obtain ⟨r, hr⟩ := Option.isSome_iff_exists.mp hsome
    obtain ⟨⟨key, r'⟩, hs, rfl⟩ := Option.map_eq_some_iff.mp hr
    have hkey : key = v.name := by simpa using List.find?_some hs
    exact ⟨r', hkey ▸ List.mem_of_find?_eq_some hs, hr⟩
  have hfind : chain.find? (·.scope == v.scope) =
      (chain.dropWhile (·.scope != v.scope)).head? := List.find?_eq_head?_dropWhile_not ..
  cases hroutine : env.program.arena.functionOf? v.scope with
  | some n =>
    have hmem := hvisible.mem_routineScopes (by simp [hroutine])
    have hinner := hc.dropWhile hn (.inl hmem)
    have hself := Arena.routineScopes_eq_cons hn (by simp [hroutine] :
      (env.program.arena.functionOf? v.scope).isSome)
    cases hd : chain.dropWhile (·.scope != v.scope) with
    | nil =>
      have hscopes := hinner.scopes
      rw [hd, hself] at hscopes
      cases hscopes
    | cons f outer =>
      rw [hd] at hinner hfind
      have hscope : f.scope = v.scope := by
        have hscopes := hinner.scopes
        rw [hself] at hscopes
        exact (List.cons.inj hscopes).1
      obtain ⟨r, hmem, hr⟩ := hslot hscope (hinner.complete f List.mem_cons_self)
      refine ⟨f, r, ⟨hscope, .inl ⟨outer, hd ▸ List.dropWhile_suffix _, hinner.scopes⟩⟩, hmem, ?_⟩
      simp [Env.variableRef, hfind, hr]
  | none =>
    have hinner := hc.dropWhile hn (.inr hroutine)
    have hscopes := hinner.scopes
    rw [Arena.routineScopes_eq_nil hn hroutine, List.map_eq_nil_iff] at hscopes
    rw [hscopes] at hfind
    obtain ⟨f, hf, hcomplete⟩ := h.globals v.scope (Arena.lt_of_entity hx) hroutine
    have hscope : f.scope = v.scope := by simpa using List.find?_some hf
    obtain ⟨r, hmem, hr⟩ := hslot hscope hcomplete
    refine ⟨f, r, ⟨hscope, .inr ⟨hroutine, List.mem_of_find?_eq_some hf⟩⟩, hmem, ?_⟩
    simp [Env.variableRef, hfind, hf, hr]

end Env.Scoped

namespace Program

theorem globalFrames_scopes (p : Program) (scopes : List Nat) (w : World) :
    (p.globalFrames scopes w).1.map (·.scope) = scopes := by
  induction scopes generalizing w with
  | nil => rfl
  | cons scope scopes ih => simp [globalFrames, ih]

theorem globalFrames_complete (p : Program) (scopes : List Nat) (w : World) :
    ∀ f ∈ (p.globalFrames scopes w).1, f.Complete p.arena := by
  induction scopes generalizing w with
  | nil => simp [globalFrames]
  | cons scope scopes ih =>
    refine List.forall_mem_cons.mpr ⟨fun v hv => ?_, ih _⟩
    exact Frame.slot?_isSome.mpr (World.mem_addSlots (.inr ⟨v, hv, rfl⟩))

variable {p : Program} {l : Launch}

/-- Every scope outside of all routines has a global frame. -/
theorem Scoped.launch (h : p.Scoped) (l : Launch) : (p.env l).Scoped where
  program := h
  globals s hs hroutine := by
    have hmem := h.globals s hs hroutine
    rw [← p.globalFrames_scopes (p.units.map (·.scope) ++ [p.main]) l.world] at hmem
    obtain ⟨f, hf, hscope⟩ := List.mem_map.mp hmem
    cases hfind : (p.env l).globals.find? (·.scope == s) with
    | none => simpa [hscope] using List.find?_eq_none.mp hfind f hf
    | some f' => exact ⟨f', rfl, p.globalFrames_complete _ _ f' (List.mem_of_find?_eq_some hfind)⟩

end Program

end Pascal
