import Pascal.Proofs.Machine.Forgotten
import Pascal.Proofs.Run.Contract
import Pascal.Proofs.Sound.Library

/-!
# Plans on typed machines

Typed code is run on a machine whose storage holds values of its types. Running it adds storage and keeps
the types of what is there, so that what is known of the results so far goes on to hold.
-/

namespace Pascal

/-- What code is typed and run with. Between the arena it is typed in and the one it is run with only
bodies of routines may differ. -/
structure Setting where
  discipline : Discipline
  arena : Arena
  env : Env

variable {S : Setting} {α β : Type} {cells cells' : List Ty} {live : List Frame}

namespace Setting

/-- Routines have typed bodies, and library routines are sound. -/
structure Sound (S : Setting) : Prop where
  alike : S.arena.Alike S.env.program.arena
  arena : S.arena.Sound S.discipline
  nested : S.arena.Nested
  headed : S.arena.Headed
  bodies : ∀ id s, (S.env.program.arena.function id).body = some s →
    s.Typed S.discipline S.arena
  natives : ∀ (id : Nat) r, S.arena.natives[id]? = some r → r.Sound S.discipline

end Setting

/-- All storage holds values of its types, which can be written down, and the slots of all frames lead to
storage of the types of their variables. -/
structure Machine.Typed (S : Setting) (cells : List Ty) (m : Machine) : Prop where
  store : m.world.store.Typed cells
  written : Ty.AllWritten cells
  frames : ∀ f ∈ S.env.globals ++ m.active, f.Typed S.discipline S.arena cells

theorem Machine.Typed.of_same {m m' : Machine} (h : m.Typed S cells)
    (hs : m'.world.store = m.world.store) (ha : m'.active = m.active) : m'.Typed S cells :=
  ⟨hs ▸ h.store, h.written, ha ▸ h.frames⟩

/-- A result leaves the same frames active on a machine that is typed with more storage. What it gives has
a property there, and it fails for lawful reasons. -/
def Run.Sound (S : Setting) (live : List Frame) (cells : List Ty) (P : List Ty → α → Prop) :
    EStateM.Result Stop Machine α → Prop
  | .ok x m => m.active = live ∧ ∃ cells', cells <+: cells' ∧ m.Typed S cells' ∧ P cells' x
  | .error e m => m.active = live ∧ (∃ cells', cells <+: cells' ∧ m.Typed S cells') ∧
      ∀ f pos, e = .fault f pos → f.Lawful S.discipline

namespace Run.Sound

variable {P Q : List Ty → α → Prop} {r : EStateM.Result Stop Machine α} {m : Machine}

theorem ok {x : α} (ha : m.active = live) (hm : m.Typed S cells) (h : P cells x) :
    Run.Sound S live cells P (.ok x m) := ⟨ha, cells, List.prefix_rfl, hm, h⟩

theorem fault {f : Fault} {pos : Option Position} (ha : m.active = live) (hm : m.Typed S cells)
    (h : f.Lawful S.discipline) :
    Run.Sound S live cells P (.error (.fault f pos) m) :=
  ⟨ha, ⟨cells, List.prefix_rfl, hm⟩, fun _ _ he => (Stop.fault.inj he).1 ▸ h⟩

theorem active (h : Run.Sound S live cells P r) : (Run.after r).active = live := by
  cases r <;> exact h.1

theorem typed (h : Run.Sound S live cells P r) : ∃ cells', (Run.after r).Typed S cells' := by
  cases r with
  | ok x m =>
    obtain ⟨-, cells', -, hm, -⟩ := h
    exact ⟨cells', hm⟩
  | error e m =>
    obtain ⟨-, ⟨cells', -, hm⟩, -⟩ := h
    exact ⟨cells', hm⟩

theorem mono (h : Run.Sound S live cells P r)
    (hQ : ∀ cells' x, cells <+: cells' → P cells' x → Q cells' x) :
    Run.Sound S live cells Q r := by
  cases r with
  | ok x m =>
    obtain ⟨ha, cells', hc, hm, hx⟩ := h
    exact ⟨ha, cells', hc, hm, hQ cells' x hc hx⟩
  | error e m => exact h

/-- What holds from a point on where there is more storage holds from the beginning. -/
theorem trans (h : Run.Sound S live cells' P r) (hc : cells <+: cells') :
    Run.Sound S live cells P r := by
  cases r with
  | ok x m =>
    obtain ⟨ha, cells'', hc', hm, hx⟩ := h
    exact ⟨ha, cells'', hc.trans hc', hm, hx⟩
  | error e m =>
    obtain ⟨ha, ⟨cells'', hc', hm⟩, he⟩ := h
    exact ⟨ha, ⟨cells'', hc.trans hc', hm⟩, he⟩

theorem leave_located (h : Run.Sound S live cells P r) (pos : Position) :
    Run.Sound S live cells P ((Around.located pos).leave m r) := by
  cases r with
  | ok x m' => exact h
  | error e m' =>
    cases e with
    | exhausted => exact h
    | fault f at? =>
      cases at? with
      | none =>
        obtain ⟨ha, hm, he⟩ := h
        exact ⟨ha, hm, fun _ _ heq => (Stop.fault.inj heq).1 ▸ he f none rfl⟩
      | some p => exact h

theorem leave_holding (h : Run.Sound S live cells P r) (vs : List Value) :
    Run.Sound S live cells P ((Around.holding vs).leave m r) := by
  cases r with
  | ok x m' =>
    obtain ⟨ha, cells', hc, hm, hx⟩ := h
    exact ⟨ha, cells', hc, hm.of_same rfl rfl, hx⟩
  | error e m' =>
    obtain ⟨ha, ⟨cells', hc, hm⟩, he⟩ := h
    exact ⟨ha, ⟨cells', hc, hm.of_same rfl rfl⟩, he⟩

/-- Where an activation ends, its frame is active no longer. -/
theorem leave_activating {f : Frame} (h : Run.Sound S (f :: live) cells P r)
    (hm : m.active = live) : Run.Sound S live cells P ((Around.activating f).leave m r) := by
  have hframes : ∀ {m' : Machine} {cells' : List Ty}, m'.active = f :: live → m'.Typed S cells' →
      Machine.Typed S cells' { m' with active := m.active } := by
    intro m' cells' ha htyped
    refine ⟨htyped.store, htyped.written, fun f' hf' => htyped.frames f' ?_⟩
    rw [ha]
    rw [hm] at hf'
    simp only [List.mem_append, List.mem_cons] at hf' ⊢
    exact hf'.imp_right .inr
  cases r with
  | ok x m' =>
    obtain ⟨ha, cells', hc, htyped, hx⟩ := h
    exact ⟨hm, cells', hc, hframes ha htyped, hx⟩
  | error e m' =>
    obtain ⟨ha, ⟨cells', hc, htyped⟩, he⟩ := h
    exact ⟨hm, ⟨cells', hc, hframes ha htyped⟩, he⟩

end Run.Sound

/-! ## Code -/

/-- What a typed argument is passed as. -/
def Arg.Gives (S : Setting) (cells : List Ty) : Arg → Passed → Prop
  | .value e, .value v => v.HasType cells (e.ty.outline S.discipline.bounds)
  | .reference p, .reference r => ∀ t, p.Typed S.discipline S.arena t →
      r.Shows S.discipline cells (p.isView S.arena) t
  | _, _ => False

namespace Arg.Gives

variable {x : Arg} {passed : Passed} {t : Ty} {mode : ParamMode}

theorem mono (h : x.Gives S cells passed) (hc : cells <+: cells') : x.Gives S cells' passed := by
  cases x <;> cases passed <;> first
    | exact h.elim
    | exact Value.HasType.mono h hc
    | exact fun t ht => (h t ht).mono hc

/-- What is passed for an argument is what its parameter asks for. -/
theorem typed (h : x.Gives S cells passed) (hx : x.Typed S.discipline S.arena t mode)
    (ht : t.Tame S.discipline) : passed.Typed S.discipline cells t mode := by
  cases x with
  | value e =>
    cases passed with
    | value v =>
      obtain ⟨hm, -, rfl⟩ := hx
      exact ⟨hm, h⟩
    | reference r => exact h.elim
  | reference p =>
    cases passed with
    | value v => exact h.elim
    | reference r =>
      obtain ⟨hm, u, hp, hfits⟩ := hx
      obtain ⟨u', hu', hseen, -⟩ := h u hp
      exact ⟨hm, u', hu', hfits.imp_right fun hf => hseen.trans (.of_fits hf hp.tame ht)⟩

end Arg.Gives

theorem passedTyped_of_gives {further : Option (Ty × ParamMode)} {params : List Parameter}
    {xs : List Arg} {passed : List Passed} (h : List.Forall₂ (Arg.Gives S cells) xs passed)
    (hxs : argsTyped S.discipline S.arena further xs params)
    (hps : ∀ p ∈ params, p.ty.Tame S.discipline)
    (hf : ∀ t mode, further = some (t, mode) → t.Tame S.discipline) :
    passedTyped S.discipline cells further passed params := by
  induction h generalizing params with
  | nil => exact hxs
  | cons hx _ ih =>
    cases params with
    | nil =>
      obtain ⟨⟨t, mode, hfurther, ht⟩, hrest⟩ := hxs
      exact ⟨⟨t, mode, hfurther, hx.typed ht (hf t mode hfurther)⟩, ih hrest hps⟩
    | cons p params =>
      obtain ⟨hp, hps⟩ := List.forall_mem_cons.mp hps
      exact ⟨hx.typed hxs.1 hp, ih hxs.2 hps⟩

namespace Code

variable (S) (cells)

/-- Typed code. What has been evaluated before is typed in the storage that there is. -/
def Typed : {α : Type} → Code α → Prop
  | _, expr e => e.Typed S.discipline S.arena
  | _, place p => ∃ t, p.Typed S.discipline S.arena t
  | _, items es => ∃ element, itemsTyped S.discipline S.arena element es
  | _, arg x => ∃ t mode, x.Typed S.discipline S.arena t mode
  | _, args xs => ∃ further params, argsTyped S.discipline S.arena further xs params
  | _, call callee passed => passedTyped S.discipline cells (S.arena.signature callee).split.2 passed
      (S.arena.signature callee).split.1
  | _, stmt s => s.Typed S.discipline S.arena
  | _, stmts ss => stmtsTyped S.discipline S.arena ss
  | _, arms _ as => armsTyped S.discipline S.arena as
  | _, whileRounds condition body _ => condition.Typed S.discipline S.arena ∧
      condition.ty = .boolean ∧ body.Typed S.discipline S.arena
  | _, repeatRounds body condition _ => condition.Typed S.discipline S.arena ∧
      condition.ty = .boolean ∧ stmtsTyped S.discipline S.arena body
  | _, forRounds _ counter start body _ _ => (∃ b, (Ty.basic b).isOrdinal ∧ start.basic? = some b ∧
      counter.HasType cells (.basic b)) ∧ body.Typed S.discipline S.arena

/-- What typed code results in. -/
def Results : {α : Type} → Code α → α → Prop
  | _, expr e, v => v.HasType cells (e.ty.outline S.discipline.bounds)
  | _, place p, r => ∀ t, p.Typed S.discipline S.arena t →
      r.Shows S.discipline cells (p.isView S.arena) t
  | _, items es, vs => ∀ element, itemsTyped S.discipline S.arena element es →
      (∀ v ∈ vs, v.HasType cells (element.outline S.discipline.bounds)) ∧
      (S.discipline.bounds → vs.length = es.length)
  | _, arg x, passed => x.Gives S cells passed
  | _, args xs, passed => List.Forall₂ (Arg.Gives S cells) xs passed
  | _, call callee _, result => (S.arena.signature callee).Returns S.discipline cells result
  | _, _, _ => True

end Code

/-- Typed code is run on typed machines whose active frames include those that the code sees. -/
def Setting.contract (S : Setting) : Contract (List Ty) where
  before cells t m := (∀ f ∈ t.chain, f ∈ m.active) ∧ m.Typed S cells ∧ t.code.Typed S cells
  after cells t m r := Run.Sound S m.active cells (fun cells' => t.code.Results S cells') r

/-! ## Plans -/

/-- A plan that is followed on typed machines has sound results. -/
def Plan.Sound (S : Setting) (live : List Frame) (cells : List Ty) (p : Plan α)
    (P : List Ty → α → Prop) : Prop :=
  ∀ m : Machine, m.active = live → m.Typed S cells →
    p.Meets S.env S.contract (Run.Sound S live cells P) m

namespace Plan.Sound

variable {p : Plan α} {P Q : List Ty → α → Prop}

theorem mono (h : p.Sound S live cells P)
    (hQ : ∀ cells' x, cells <+: cells' → P cells' x → Q cells' x) : p.Sound S live cells Q :=
  fun m ha hm => Plan.Meets.mono (h m ha hm) fun _ hr => hr.mono hQ

theorem pure {x : α} (h : P cells x) : (Pure.pure x : Plan α).Sound S live cells P :=
  fun _ ha hm => Plan.Meets.pure (.ok ha hm h)

/-- All storage that a plan is followed with is of types that can be written down. -/
theorem of_written (h : Ty.AllWritten cells → p.Sound S live cells P) : p.Sound S live cells P :=
  fun m ha hm => h hm.written m ha hm

theorem bind {Q : List Ty → β → Prop} {next : α → Plan β} (hp : p.Sound S live cells P)
    (hnext : ∀ cells' x, cells <+: cells' → P cells' x → (next x).Sound S live cells' Q) :
    (p >>= next).Sound S live cells Q := by
  intro m ha hm
  refine Plan.Meets.bind (hp m ha hm) ?_ fun e m' h => h
  rintro x m' ⟨ha', cells', hc, hm', hx⟩
  exact Plan.Meets.mono (hnext cells' x hc hx m' ha' hm') fun _ hr => hr.trans hc

theorem action {x : Run α} (h : ∀ m : Machine, m.active = live → m.Typed S cells →
    Run.Sound S live cells P (x m)) : (Plan.action x).Sound S live cells P :=
  fun m ha hm => Plan.Meets.action (h m ha hm)

/-- A call for typed code results in what that code results in. -/
theorem enter {depth : Nat} {chain : Chain} {c : Code α} (hchain : ∀ f ∈ chain, f ∈ live)
    (hc : c.Typed S cells) :
    (Plan.enter depth chain c).Sound S live cells fun cells' => c.Results S cells' := by
  intro m ha hm
  refine Plan.Meets.enter cells ⟨ha ▸ hchain, hm, hc⟩ fun r _ hr => ?_
  rw [← ha]
  exact hr

theorem located {pos : Position} (h : p.Sound S live cells P) :
    (Plan.within (.located pos) p).Sound S live cells P :=
  fun m ha hm => Plan.Meets.within (Plan.Meets.mono (h m ha hm) fun _ hr => hr.leave_located pos)

theorem holding {vs : List Value} (h : p.Sound S live cells P) :
    (Plan.within (.holding vs) p).Sound S live cells P :=
  fun m ha hm => Plan.Meets.within (Plan.Meets.mono
    (h { m with held := vs ++ m.held } ha (hm.of_same rfl rfl)) fun _ hr => hr.leave_holding vs)

theorem activating {f : Frame} (hf : f.Typed S.discipline S.arena cells)
    (h : p.Sound S (f :: live) cells P) :
    (Plan.within (.activating f) p).Sound S live cells P := by
  intro m ha hm
  refine Plan.Meets.within (Plan.Meets.mono (h { m with active := f :: m.active } (by rw [ha])
    ⟨hm.store, hm.written, fun f' hf' => ?_⟩) fun _ hr => hr.leave_activating ha)
  rcases List.mem_append.mp hf' with hf' | hf'
  · exact hm.frames f' (List.mem_append_left _ hf')
  · rcases List.mem_cons.mp hf' with rfl | hf'
    · exact hf
    · exact hm.frames f' (List.mem_append_right _ hf')

/-! ### What a plan does itself -/

theorem map {x : Run α} {f : α → β} (h : (Plan.action x).Sound S live cells P) :
    (Plan.action (f <$> x)).Sound S live cells fun cells' y => ∃ a, y = f a ∧ P cells' a := by
  refine action fun m ha hm => ?_
  have hx : Run.Sound S live cells P (x m) := h m ha hm
  simp only [Functor.map, EStateM.map]
  cases hr : x m with
  | ok a m' =>
    rw [hr] at hx
    exact hx.mono (r := .ok a m') (Q := fun cells' a => ∃ b, f a = f b ∧ P cells' b)
      fun _ _ _ hp => ⟨_, rfl, hp⟩
  | error e m' =>
    rw [hr] at hx
    exact hx

theorem fail {f : Fault} (h : f.Lawful S.discipline) :
    (Plan.action (Run.fail f : Run α)).Sound S live cells P :=
  action fun _ ha hm => .fault ha hm h

theorem exhausted : (Plan.action (throw .exhausted : Run α)).Sound S live cells P :=
  action fun _ ha hm => ⟨ha, ⟨cells, List.prefix_rfl, hm⟩, fun _ _ he => by cases he⟩

theorem liftFault {r : Except Fault α} (hok : ∀ x, r = .ok x → P cells x)
    (herror : ∀ f, r = .error f → f.Lawful S.discipline) :
    (Plan.action (Run.liftFault r)).Sound S live cells P := by
  cases r with
  | ok x => exact action fun _ ha hm => .ok ha hm (hok x rfl)
  | error f => exact fail (herror f rfl)

theorem gives {r : Except Fault α} (h : Gives r (P cells)) :
    (Plan.action (Run.liftFault r)).Sound S live cells P :=
  liftFault (by rintro x rfl; exact h) (by rintro f rfl; exact Fault.Regular.lawful h)

/-- What keeps storage and frames as they are. -/
theorem keeps {f : Machine → Machine} (hf : ∀ m : Machine, (f m).world.store = m.world.store ∧
    (f m).active = m.active) {x : Run Unit} (hx : ∀ m, x m = .ok () (f m)) :
    (Plan.action x).Sound S live cells fun _ _ => True := by
  refine action fun m ha hm => ?_
  rw [hx]
  exact .ok ((hf m).2.trans ha) (hm.of_same (hf m).1 (hf m).2) trivial

theorem checkCancelled : (Plan.action Run.checkCancelled).Sound S live cells fun _ _ => True := by
  refine action fun m ha hm => ?_
  unfold Run.checkCancelled
  split
  · exact .fault ha hm trivial
  · exact .ok ha hm trivial

theorem announce {env : Env} {chain : Chain} {s : Stmt} :
    (Plan.action (Run.announce env chain s)).Sound S live cells fun _ _ => True := by
  refine keeps (f := fun m => if s.isBlock then m else m.announce env chain s.pos) (fun m => ?_)
    fun _ => rfl
  unfold Machine.announce Machine.reportLine Machine.addReport
  split
  · exact ⟨rfl, rfl⟩
  · split
    · exact ⟨rfl, rfl⟩
    · dsimp only
      split <;> exact ⟨rfl, rfl⟩

theorem releaseForgotten {env : Env} {vs : List Value} :
    (Plan.action (Run.releaseForgotten env vs)).Sound S live cells fun _ _ => True := by
  refine keeps (f := fun m => { Machine.releaseForgotten env { m with held := vs ++ m.held } with
    held := m.held }) (fun m => ?_) fun _ => rfl
  have hkeeps := Machine.keeps_releaseForgotten env { m with held := vs ++ m.held }
  exact ⟨hkeeps.store, hkeeps.active⟩

theorem get {r : Ref} {view : Bool} {t : Ty} (hr : r.Shows S.discipline cells view t) :
    (Plan.action (Run.get r)).Sound S live cells fun cells' =>
      Value.HasType cells' (t.outline S.discipline.bounds) := by
  refine action fun m ha hm => ?_
  have hgives := Ref.Shows.get hm.store hr
  unfold Run.get
  cases hget : m.world.store.get r with
  | ok v =>
    rw [hget] at hgives
    exact .ok ha hm hgives
  | error f =>
    rw [hget] at hgives
    exact .fault ha hm (Fault.Regular.lawful hgives)

/-- Storage may be given another value of its type. -/
theorem set {r : Ref} {v : Value} {t : Ty} (hr : r.HasType cells t) (hv : v.HasType cells t) :
    (Plan.action (Run.set r v)).Sound S live cells fun _ _ => True := by
  refine action fun m ha hm => ?_
  have hgives := hm.store.revised hr (f := fun _ => .ok v) fun _ _ => hv
  unfold Run.set
  cases hrevised : m.world.store.revised r fun _ => .ok v with
  | ok w =>
    rw [hrevised] at hgives
    exact .ok ha ⟨hgives, hm.written, hm.frames⟩ trivial
  | error f =>
    rw [hrevised] at hgives
    exact .fault ha hm (Fault.Regular.lawful hgives)

theorem format {v width : Value} {precision : Option Value} (hw : width.HasType cells .integer)
    (hp : ∀ p, precision = some p → p.HasType cells .integer) :
    (Plan.action (Run.format v width precision)).Sound S live cells fun cells' =>
      Value.HasType cells' .string := by
  refine action fun m ha hm => ?_
  have hgives := Value.format_gives (v := v) m.world.render hw hp
  unfold Run.format
  cases htext : Value.format m.world.render v width precision with
  | ok text =>
    rw [htext] at hgives
    exact .ok ha hm hgives
  | error f =>
    rw [htext] at hgives
    exact .fault ha hm (Fault.Regular.lawful hgives)

/-- What the world adds to its storage is typed. -/
theorem onWorld {f : World → α × World} (hf : ∀ w : World, w.store.Typed cells → Ty.AllWritten cells →
    ∃ cells', cells <+: cells' ∧ (f w).2.store.Typed cells' ∧ Ty.AllWritten cells' ∧ P cells' (f w).1) :
    (Plan.action (Run.onWorld f)).Sound S live cells P := by
  refine action fun m ha hm => ?_
  obtain ⟨cells', hc, hstore, hwritten, hx⟩ := hf m.world hm.store hm.written
  exact ⟨ha, cells', hc, ⟨hstore, hwritten, fun f' hf' => (hm.frames f' hf').mono hc⟩, hx⟩

theorem ofHost {name : String} {x : Host α} {P : α → Prop} (hx : Host.Sound S.discipline cells x P) :
    (Plan.action (Run.ofHost name x)).Sound S live cells fun cells' y => cells' = cells ∧ P y := by
  refine action fun m ha hm => ?_
  have h := hx m.world hm.store
  unfold Run.ofHost
  cases hr : x m.world with
  | ok y w =>
    rw [hr] at h
    exact .ok ha ⟨h.1, hm.written, hm.frames⟩ ⟨rfl, h.2⟩
  | error e w =>
    rw [hr] at h
    cases e with
    | fault f => exact .fault ha ⟨h.1, hm.written, hm.frames⟩ (h.2 f rfl)
    | host text => exact .fault ha ⟨h.1, hm.written, hm.frames⟩ trivial

end Plan.Sound

end Pascal
