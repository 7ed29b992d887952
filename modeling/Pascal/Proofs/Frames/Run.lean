import Pascal.Proofs.Frames.Follows
import Pascal.Proofs.Program.Natives
import Pascal.Proofs.Run.Calm
import Pascal.Proofs.Run.Parts

/-!
# Lexical scoping of a run

The frames that code sees are those of the routines around it. A call keeps this up, since the routines
that it can name are declared in one of the scopes around it or outside of all routines.
-/

namespace Pascal

variable {env : Env} {scope depth : Nat} {chain : Chain} {α : Type}

namespace Code.Scoped

variable {a : Arena} {c : Code α}

theorem sees (h : c.Scoped a scope) {v : VarRef} (hv : c.lookedUp? = some v) : a.sees scope v := by
  cases c with
  | place p =>
    cases p with
    | var w =>
      cases hv
      exact h
    | _ => cases hv
  | _ => cases hv

theorem native_lt (h : c.Scoped a scope) {id : Nat} (hid : c.native? = some id) :
    id < a.natives.size := by
  cases c with
  | call callee passed =>
    cases callee with
    | native n =>
      cases hid
      exact h
    | user n => cases hid
  | _ => cases hid

end Code.Scoped

/-- Code of a scope finds its variables and its library routines. -/
private theorem Code.Scoped.finds {t : Task α} (hc : t.code.Scoped env.program.arena scope)
    (he : env.Scoped) (hh : env.program.Heeds) (hchain : t.chain.Follows env.program.arena scope) :
    Run.Finds env t fun f => f.isScoping = false where
  plain _ hf := Fault.not_isScoping (Fault.not_isOwn hf)
  cancelled := rfl
  lookup v hv := by
    obtain ⟨f, r, -, -, hr⟩ := he.variableRef hchain (hc.sees hv)
    rw [hr]
    exact .ok r
  native id _ r hr args w w' f hf := by
    cases hown : f.isOwn with
    | false => exact Fault.not_isScoping hown
    | true =>
      rw [((hh id r hr args).marked hf hown).1]
      rfl
  missing id hid hr := by
    rw [Array.getElem?_eq_getElem (hc.native_lt hid)] at hr
    cases hr

theorem Code.scoped_iff {a : Arena} {c : Code α} : c.Scoped a scope ↔
    c.All (Expr.onCallee (a.calls scope)) (Place.onVar (a.sees scope)) (Stmt.onCallee (a.calls scope))
      (a.Callable scope) := by
  cases c <;> rfl

/-- Code that is no call of a routine of the program goes on with code of its scope. -/
theorem Task.plan_scoped (c : Code α) (hc : c.Scoped env.program.arena scope)
    (hcall : c.isActivation = false) : (Task.plan env ⟨c, chain, depth⟩).Own (fun _ => True)
      fun t => t.code.Scoped env.program.arena scope := by
  have hcalls {callee : Callee} (h : env.program.arena.calls scope callee) :
      env.program.arena.Callable scope callee := by simpa [Arena.calls] using h
  exact (plan_all (fun _ _ _ _ => hcalls) (fun _ _ _ _ => hcalls) c (Code.scoped_iff.mp hc) hcall).mono
    (fun _ h => h) fun _ h => Code.scoped_iff.mpr h

/-- Code that is no call of a routine of the program goes on with code of its scope that sees the same
frames, and what it does itself leaves the activations in progress as they are. -/
private theorem plan_steady (he : env.Scoped) (hh : env.program.Heeds) {t : Task α}
    (hchain : t.chain.Follows env.program.arena scope) (hc : t.code.Scoped env.program.arena scope)
    (hcall : t.code.isActivation = false) :
    (t.plan env).Own (Run.Still fun f => f.isScoping = false) fun t' =>
      t'.chain = t.chain ∧ t'.code.Scoped env.program.arena scope :=
  ((t.plan_own hcall).and (Task.plan_scoped t.code hc hcall)).mono
    (fun _ h => h.still (hc.finds he hh hchain)) fun _ h => ⟨h.1.chain, h.2⟩

namespace Env

/-- Calls are made with the frames around the scope that their code stands in, and these are active.
They leave the activations in progress as they are and find no fault in frames. -/
def lexical (env : Env) : Contract Nat where
  before scope t m := t.code.Scoped env.program.arena scope ∧
    t.chain.Follows env.program.arena scope ∧ ∀ f ∈ t.chain, f ∈ m.active
  after _ _ m r := Run.Calm (fun f => f.isScoping = false) m r

/-- A new activation of a function holds its result, so that it can be handed over. -/
private theorem still_result (h : env.program.Scoped) {id : Nat}
    (hid : id < env.program.arena.functions.size) {frame : Frame}
    (hcomplete : frame.Complete env.program.arena)
    (hscope : frame.scope = (env.program.arena.function id).scope) :
    Run.Still (fun f => f.isScoping = false) (Run.result (env.program.arena.function id) frame) := by
  unfold Run.result
  cases hresult : (env.program.arena.function id).signature.result with
  | none => exact .pure none
  | some t =>
    have hslot := hcomplete.result h.headed hid hscope (by rw [hresult]; rfl)
    obtain ⟨r, hr⟩ := Option.isSome_iff_exists.mp hslot
    dsimp only
    rw [hr]
    exact (Run.Still.get (fun _ hf => Fault.not_isScoping (Fault.not_isOwn hf)) r).map some

theorem lexical_kept (he : env.Scoped) (hh : env.program.Heeds) : env.lexical.Kept env := by
  have h := he.program
  rintro α scope ⟨code, chain, depth⟩ m ⟨hcode, hchain, hactive⟩
  cases hcall : code.isActivation with
  | false =>
    refine (plan_steady he hh hchain hcode hcall).meets (fun t m' ht hm' => ?_) rfl
    refine ⟨scope, ⟨ht.2, ht.1 ▸ hchain, fun f hf => ?_⟩, fun _ hr => hr⟩
    rw [ht.1] at hf
    exact hm' ▸ hactive f hf
  | true =>
    cases code with
    | call callee passed =>
      cases callee with
      | user id =>
        obtain ⟨body, hbody⟩ := h.bodies id hcode.1
        simp only [Task.plan, planCall, hbody]
        cases depth with
        | zero => exact .action (.fault rfl rfl)
        | succ depth =>
          -- the body sees a frame of its own, and behind it those around the routine
          refine planActivation_meets fun w m' hm' =>
            ⟨still_result h hcode.1 UserRoutine.newFrame_complete rfl,
              (env.program.arena.function id).scope, ⟨h.functions id body hbody,
                (hchain.outerFrames h.nested hcode).cons h.nested hcode.1 rfl
                  UserRoutine.newFrame_complete, ?_⟩, fun r hr => hr⟩
          rw [hm']
          refine List.forall_mem_cons.mpr ⟨List.mem_cons_self, fun f hf => ?_⟩
          exact List.mem_cons_of_mem _ (hactive f ((List.dropWhile_suffix _).subset hf))
      | native id => cases hcall
    | _ => cases hcall

end Env

/-!
## Runs

A run begins each of its statements with the global frames alone. From there on all code sees the
activations of the routines around it, whichever routines have called each other on the way.
-/

/-- A call sees the activations of the routines around a scope, and no others. -/
structure Env.Lexical (env : Env) (scope : Nat) (t : Task α) (m : Machine) : Prop where
  code : t.code.Scoped env.program.arena scope
  frames : t.chain.Follows env.program.arena scope
  /-- The current frame, if there is one, is that of the scope itself. -/
  current : ∀ f outer, t.chain = f :: outer → f.scope = scope
  active : ∀ f ∈ t.chain, f ∈ m.active
  /-- A variable has its place in the frame of the routine that declares it, or in a global one. -/
  named : ∀ v, env.program.arena.sees scope v → ∃ f r, env.Owns t.chain v f ∧
    (v.name, r) ∈ f.slots ∧ env.variableRef t.chain v = .ok r
  /-- A routine that is called goes on with the frames around its declaration. -/
  called : ∀ id, env.program.arena.Callable scope (.user id) →
    (env.program.arena.function id).outerFrames t.chain <:+ t.chain ∧
    Chain.Follows env.program.arena ((env.program.arena.function id).outerFrames t.chain)
      (env.program.arena.function id).declaredIn

/-- What is promised before a call holds of all that the call sees. -/
theorem Env.Scoped.lexical {env : Env} (h : env.Scoped) {scope : Nat} {t : Task α} {m : Machine}
    (hb : env.lexical.before scope t m) : env.Lexical scope t m where
  code := hb.1
  frames := hb.2.1
  current _ _ hchain := Chain.Follows.scope_eq (hchain ▸ hb.2.1) h.program.nested
  active := hb.2.2
  named _ hv := h.variableRef hb.2.1 hv
  called _ hc := ⟨List.dropWhile_suffix _, hb.2.1.outerFrames h.program.nested hc⟩

namespace Program

variable {p : Program} {l : Launch}

/-- A statement of a run is one of the main program or of a unit. -/
theorem mem_stages {s : Stmt} : s ∈ p.stages ↔ s = p.body ∨ ∃ u ∈ p.units,
    u.initialization = some s ∨ u.finalization = some s := by
  simp only [stages, List.mem_append, List.mem_cons, List.mem_filterMap, List.mem_reverse]
  constructor
  · rintro (⟨u, hu, h⟩ | rfl | ⟨u, hu, h⟩)
    · exact .inr ⟨u, hu, .inl h⟩
    · exact .inl rfl
    · exact .inr ⟨u, hu, .inr h⟩
  · rintro (rfl | ⟨u, hu, h | h⟩)
    · exact .inr (.inl rfl)
    · exact .inl ⟨u, hu, h⟩
    · exact .inr (.inr ⟨u, hu, h⟩)

/-- The statements of a run see no frames but the global ones, as do their scopes. -/
theorem Scoped.stages (h : p.Scoped) {s : Stmt} (hs : s ∈ p.stages) :
    ∃ scope, s.Scoped p.arena scope ∧ Chain.Follows p.arena [] scope := by
  have hfollows : ∀ {scope : Nat}, p.arena.functionOf? scope = none →
      Chain.Follows p.arena [] scope := fun hroutine =>
    ⟨(Arena.routineScopes_eq_nil h.nested hroutine).symm, by simp⟩
  rcases mem_stages.mp hs with rfl | ⟨u, hu, hs⟩
  · exact ⟨p.main, h.body, hfollows h.outermost.1⟩
  · exact ⟨u.scope, h.units u hu s hs, hfollows (h.outermost.2 u hu)⟩

/-- A run is planned with the frames around the scopes of its code, and it finds no fault in them. -/
theorem Scoped.plan_meets (h : p.Scoped) (l : Launch) :
    (p.plan l).Meets (p.env l) (p.env l).lexical
      (fun r => ∀ f pos m, r = .error (.fault f pos) m → f.isScoping = false) (p.start l) := by
  refine .planStages (I := fun _ => True) (fun s hs m _ => ?_) trivial fun _ _ _ _ _ h => by cases h
  obtain ⟨scope, hscoped, hfollows⟩ := h.stages hs
  refine ⟨scope, ⟨hscoped, hfollows, by simp⟩, fun r hr => ?_⟩
  cases r with
  | ok a m' => trivial
  | error e m' => exact hr.of_error.sound

/-- No run finds a fault in its frames. -/
theorem Scoped.run_sound (h : p.Scoped) (hh : p.Heeds) (l : Launch) {f : Fault}
    {pos : Option Position}
    (hrun : (p.run l.settings l.listener l.rounds l.world).1 = .failed f pos) :
    f.isScoping = false := by
  have hsound := p.perform_plan (Env.lexical_kept (h.launch l) hh) (h.plan_meets l)
  rw [p.run_eq] at hrun
  cases hr : (p.plan l).perform (p.env l) (p.start l) with
  | ok a m =>
    rw [hr] at hrun
    cases hrun
  | error e m =>
    rw [hr] at hrun hsound
    cases e with
    | exhausted => cases hrun
    | fault f' pos' =>
      have hf := hsound f' pos' m rfl
      cases f' <;> cases hrun <;> exact hf

end Program

namespace Toolchain

/-- The code of a compiled program keeps to its scopes. -/
theorem compile_scoped {t : Toolchain} {unit source : String} {p : Program}
    (h : t.compile unit source = .ok p) : p.Scoped := by
  obtain ⟨q, hq, rfl⟩ := compile_eq_ok h
  have hbuild : q.Elaborated true t.libraries := compilePlain_elaborated hq (by simp)
  have hplain := hbuild.scoped
  split
  · exact hplain.fold
  · exact hplain

/-- Scoping is lexical. At every point of a run, the frames that code sees are those of the routines
around its scope, the innermost one first, each with a slot for every variable of its routine. All
variables that the code names have their places there or in global storage, and all routines that it
calls go on with the frames around their declarations. No run fails for want of a frame, of a slot in it
or of the body of a routine. -/
theorem compile_lexical {t : Toolchain} {unit source : String} {p : Program}
    (h : t.compile unit source = .ok p) (hl : ∀ l ∈ t.libraries, ∀ r ∈ l.routines, r.Heeds)
    (l : Launch) :
    (∀ {α : Type} (task : Task α) (m : Machine), p.Reaches l task m →
      (∃ scope, (p.env l).Lexical scope task m) ∧
      (Run.after (task.perform (p.env l) m)).active = m.active) ∧
    ∀ f pos, (p.run l.settings l.listener l.rounds l.world).1 = .failed f pos →
      f.isScoping = false := by
  have hheeds := compile_heeds h hl
  have hscoped := compile_scoped h
  have hkept : (p.env l).lexical.Kept (p.env l) := Env.lexical_kept (hscoped.launch l) hheeds
  refine ⟨fun task m hreach => ?_, fun f pos => hscoped.run_sound hheeds l⟩
  obtain ⟨scope, hbefore⟩ := hreach.before hkept (hscoped.plan_meets l)
  exact ⟨⟨scope, (hscoped.launch l).lexical hbefore⟩, (hkept.perform task scope m hbefore).active⟩

/-- A run without units begins with the statement of the main program. -/
theorem reaches_body {p : Program} (hp : p.units = []) (l : Launch) :
    p.Reaches l ⟨.stmt p.body, [], l.settings.maxCallDepth⟩ (p.start l) := by
  refine ⟨_, _, _, ?_, .refl⟩
  rw [Program.plan, Program.stages, hp]
  exact .first .call

/-- Whether a call sees two frames while four routines are active. -/
def seesTwoOfFour {α : Type} (t : Task α) (m : Machine) : Bool :=
  t.chain.length == 2 && m.active.length == 4

/-- The hypotheses hold of a program with routines inside each other that call each other. Where the
inner one has been called again from itself, it sees the later activations alone. -/
theorem compile_lexical_nested : ∃ (p : Program) (l : Launch) (α : Type) (task : Task α) (m : Machine)
    (scope : Nat),
    standard.compile "test" "procedure outer(n: integer);
        procedure inner; begin if n > 0 then outer(n - 1); n := 0 end;
      begin inner; write(n) end;
      begin outer(1) end." = .ok p ∧
    p.Reaches l task m ∧ task.chain.length = 2 ∧ m.active.length = 4 ∧
    (p.env l).Lexical scope task m := by
  let text := "procedure outer(n: integer);
        procedure inner; begin if n > 0 then outer(n - 1); n := 0 end;
      begin inner; write(n) end;
      begin outer(1) end."
  let l : Launch := ⟨{}, none, 100, { console := .ofInput "" }⟩
  have hfinds : (standard.compile "test" text).toOption.any (·.finds l seesTwoOfFour 18) := by
    decide +kernel
  obtain ⟨p, hp, hfinds⟩ := exists_ok_of_any hfinds
  obtain ⟨α, task, m, hreach, hsees⟩ := Program.exists_reaches hfinds
  simp only [seesTwoOfFour, Bool.and_eq_true, beq_iff_eq] at hsees
  obtain ⟨⟨scope, hlexical⟩, -⟩ := (compile_lexical hp Library.standard_heeds l).1 task m hreach
  exact ⟨p, l, α, task, m, scope, hp, hreach, hsees.1, hsees.2, hlexical⟩

end Toolchain

end Pascal
