import Pascal.Proofs.Run.Inert
import Pascal.Proofs.Tree.Induction

/-!
# Relations between runs

The evaluators only put computations together. A relation between computations that holds of inert ones
and that is kept by how they are put together relates two runs of the same code, once it relates what
the two runs do on their own: library routines, and the beginnings of statements.
-/

namespace Pascal

namespace Run

variable {R : ∀ {α : Type}, Run α → Run α → Prop} {α β : Type}

/-- A relation between computations that holds of inert ones and is kept by how computations are put
together. -/
structure Congruence (R : ∀ {α : Type}, Run α → Run α → Prop) : Prop where
  inert : ∀ {α : Type} {x : Run α}, x.Inert → R x x
  bind : ∀ {α β : Type} {x y : Run α} {f g : α → Run β}, R x y → (∀ a, R (f a) (g a)) →
    R (x >>= f) (y >>= g)
  located : ∀ {α : Type} {x y : Run α} (pos : Position), R x y → R (located pos x) (located pos y)
  holding : ∀ {α : Type} {x y : Run α} (vs : List Value), R x y → R (holding vs x) (holding vs y)
  activating : ∀ {α : Type} {x y : Run α} (f : Frame), R x y →
    R (activating f x) (activating f y)

namespace Congruence

variable (hR : Congruence @R)
include hR

theorem pure (a : α) : R (Pure.pure a : Run α) (Pure.pure a) := hR.inert (.pure a)

theorem liftFault {r : Except Fault α} (hr : Heedless r) : R (Run.liftFault r) (Run.liftFault r) :=
  hR.inert (.liftFault hr.ne_cancelled)

theorem truth {x y : Run Value} (h : R x y) : R (truth x) (truth y) :=
  hR.bind h fun v => hR.liftFault v.heedless_asBool

section Loops

variable {c c' : Run Bool} {check check' : Run Unit} {b b' : Run Flow}

theorem exhausted : R (throw .exhausted : Run α) (throw .exhausted) :=
  hR.inert (.throw fun _ h => by cases h)

theorem whileRounds (hc : R c c') (hcheck : R check check') (hb : R b b') (n : Nat) :
    R (whileRounds c check b n) (whileRounds c' check' b' n) := by
  induction n with
  | zero => exact hR.exhausted
  | succ n ih =>
    refine hR.bind hc fun holds => ?_
    cases holds with
    | false => exact hR.pure _
    | true =>
      refine hR.bind hcheck fun _ => hR.bind hb fun flow => ?_
      cases flow <;> first | exact ih | exact hR.pure _

theorem repeatRounds (hc : R c c') (hcheck : R check check') (hb : R b b') (n : Nat) :
    R (repeatRounds c check b n) (repeatRounds c' check' b' n) := by
  induction n with
  | zero => exact hR.exhausted
  | succ n ih =>
    refine hR.bind hcheck fun _ => hR.bind hb fun flow => ?_
    have hnext : R
        (do if ← c then return .normal else Run.repeatRounds c check b n)
        (do if ← c' then return .normal else Run.repeatRounds c' check' b' n) := by
      refine hR.bind hc fun holds => ?_
      cases holds with
      | false => exact ih
      | true => exact hR.pure _
    cases flow <;> first | exact hnext | exact hR.pure _

theorem forRounds {step : Int} {setCounter setCounter' : Int → Run Unit}
    (hset : ∀ n, R (setCounter n) (setCounter' n)) (hcheck : R check check') (hb : R b b') (n : Nat)
    (current : Int) :
    R (forRounds step setCounter check b n current)
      (forRounds step setCounter' check' b' n current) := by
  induction n generalizing current with
  | zero => exact hR.pure _
  | succ n ih =>
    refine hR.bind hcheck fun _ => hR.bind (hset current) fun _ => hR.bind hb fun flow => ?_
    cases flow <;> first | exact ih _ | exact hR.pure _

end Loops

theorem forM {ι : Type} {f g : ι → Run Unit} {xs : List ι} (h : ∀ x ∈ xs, R (f x) (g x)) :
    R (xs.forM f) (xs.forM g) := by
  induction xs with
  | nil => exact hR.pure ()
  | cons x xs ih =>
    obtain ⟨hx, hxs⟩ := List.forall_mem_cons.mp h
    exact hR.bind hx fun _ => ih hxs

end Congruence

end Run

variable {R : ∀ {α : Type}, Run α → Run α → Prop} {env env' : Env} {caller caller' : Caller}
  {chain : Chain}

/-- Routines of the program do related things. -/
def Caller.Related (R : ∀ {α : Type}, Run α → Run α → Prop) (caller caller' : Caller) : Prop :=
  ∀ chain id args, R (caller chain id args) (caller' chain id args)

namespace Env

/-- Two environments have the same global variables, and their library routines do related things. -/
structure Related (R : ∀ {α : Type}, Run α → Run α → Prop) (env env' : Env) : Prop where
  globals : env'.globals = env.globals
  native : ∀ (caller caller' : Caller) chain id args,
    R (env.call caller chain (.native id) args) (env'.call caller' chain (.native id) args)

namespace Related

variable (hR : Run.Congruence @R) (he : env.Related @R env') (hc : caller.Related @R caller')

section

include he hc

theorem call (chain : Chain) (callee : Callee) (args : List Passed) :
    R (env.call caller chain callee args) (env'.call caller' chain callee args) := by
  cases callee with
  | user id => exact hc chain id args
  | native id => exact he.native caller caller' chain id args

end

include hR

private theorem evalItems_of {items : List Expr}
    (h : ∀ e ∈ items, R (e.eval env caller chain) (e.eval env' caller' chain) ∧
      ∀ low high n, e = .range low high n →
        R (low.eval env caller chain) (low.eval env' caller' chain) ∧
        R (high.eval env caller chain) (high.eval env' caller' chain)) :
    R (Pascal.evalItems env caller chain items) (Pascal.evalItems env' caller' chain items) := by
  induction items with
  | nil => exact hR.pure _
  | cons e items ih =>
    obtain ⟨⟨he, hr⟩, hitems⟩ := List.forall_mem_cons.mp h
    have ih := ih hitems
    by_cases hrange : ∃ low high n, e = .range low high n
    · obtain ⟨low, high, n, rfl⟩ := hrange
      obtain ⟨hl, hh⟩ := hr low high n rfl
      rw [Pascal.evalItems, Pascal.evalItems]
      exact hR.bind hl fun _ => hR.bind hh fun _ =>
        hR.bind (hR.liftFault (Value.heedless_expandRange _ _)) fun _ => hR.bind ih fun _ => hR.pure _
    · have hne : ∀ low high n, e ≠ .range low high n := fun low high n h => hrange ⟨low, high, n, h⟩
      rw [Pascal.evalItems, Pascal.evalItems]
      · exact hR.bind he fun v => hR.bind (hR.holding [v] ih) fun _ => hR.pure _
      · exact hne
      · exact hne

private theorem evalArgs_of {args : List Arg}
    (h : ∀ arg ∈ args, R (arg.pass env caller chain) (arg.pass env' caller' chain)) :
    R (Pascal.evalArgs env caller chain args) (Pascal.evalArgs env' caller' chain args) := by
  induction args with
  | nil => exact hR.pure _
  | cons arg args ih =>
    obtain ⟨harg, hargs⟩ := List.forall_mem_cons.mp h
    rw [Pascal.evalArgs, Pascal.evalArgs]
    exact hR.bind harg fun p => hR.bind (hR.holding _ (ih hargs)) fun _ => hR.pure _

include he hc

/-- The bounds of a range are evaluated only as an item, so that ranges are passed by. -/
private theorem evaluation :
    (∀ e : Expr, R (e.eval env caller chain) (e.eval env' caller' chain) ∧
      ∀ low high n, e = .range low high n →
        R (low.eval env caller chain) (low.eval env' caller' chain) ∧
        R (high.eval env caller chain) (high.eval env' caller' chain)) ∧
    (∀ p : Place, R (p.resolve env caller chain) (p.resolve env' caller' chain)) ∧
    ∀ arg : Arg, R (arg.pass env caller chain) (arg.pass env' caller' chain) := by
  refine Expr.induction ?literal ?place ?array ?range ?address ?unary ?binary ?convert ?format
    ?formatReal ?call ?var ?element ?charAt ?deref ?value ?reference
  case literal => exact fun v n => ⟨hR.pure _, by simp⟩
  case place =>
    refine fun p n ih => ⟨?_, by simp⟩
    rw [Expr.eval, Expr.eval]
    exact hR.bind ih fun r => hR.inert (.get r)
  case array =>
    refine fun lower items n ih => ⟨?_, by simp⟩
    rw [Expr.eval, Expr.eval]
    exact hR.bind (evalItems_of hR ih) fun _ => hR.pure _
  case range =>
    refine fun low high n ihl ihh => ⟨hR.inert (.fail (by simp)), ?_⟩
    rintro low high n ⟨⟩
    exact ⟨ihl.1, ihh.1⟩
  case address =>
    refine fun p n ih => ⟨?_, by simp⟩
    rw [Expr.eval, Expr.eval]
    exact hR.bind ih fun _ => hR.pure _
  case unary =>
    refine fun op e n ih => ⟨?_, by simp⟩
    rw [Expr.eval, Expr.eval]
    exact hR.bind ih.1 fun v => hR.liftFault (v.heedless_unary op)
  case binary =>
    refine fun op l r n ihl ihr => ⟨?_, by simp⟩
    rw [Expr.eval, Expr.eval]
    refine hR.bind ihl.1 fun left => ?_
    split
    · refine hR.bind (hR.liftFault left.heedless_asBool) fun b => ?_
      split
      · exact hR.pure _
      · refine hR.bind ihr.1 fun right => ?_
        exact hR.bind (hR.liftFault right.heedless_asBool) fun _ => hR.pure _
    · exact hR.bind (hR.holding _ ihr.1) fun right => hR.liftFault (left.heedless_binary op right)
  case convert =>
    refine fun c e n ih => ⟨?_, by simp⟩
    rw [Expr.eval, Expr.eval]
    exact hR.bind ih.1 fun v => hR.liftFault (c.heedless_apply v)
  case format =>
    refine fun v w n ihv ihw => ⟨?_, by simp⟩
    rw [Expr.eval, Expr.eval]
    exact hR.bind ihv.1 fun _ => hR.bind (hR.holding _ ihw.1) fun _ => hR.inert (.format _ _ _)
  case formatReal =>
    refine fun v w p n ihv ihw ihp => ⟨?_, by simp⟩
    rw [Expr.eval, Expr.eval]
    exact hR.bind ihv.1 fun _ => hR.bind (hR.holding _ ihw.1) fun _ =>
      hR.bind (hR.holding _ ihp.1) fun _ => hR.inert (.format _ _ _)
  case call =>
    refine fun callee name args n ih => ⟨?_, by simp⟩
    rw [Expr.eval, Expr.eval]
    refine hR.bind (evalArgs_of hR ih) fun passed => ?_
    refine hR.bind (he.call hc chain callee passed) fun result => ?_
    cases result with
    | none => exact hR.inert (.fail (by simp))
    | some v => exact hR.pure v
  case var =>
    intro v
    have hsame : env'.variableRef chain v = env.variableRef chain v := by
      rw [variableRef, variableRef, he.globals]
    rw [Place.resolve, Place.resolve, hsame]
    exact hR.inert (.liftFault (env.variableRef_ne_cancelled chain v))
  case element =>
    intro base index ihb ihi
    rw [Place.resolve, Place.resolve]
    refine hR.bind ihi.1 fun i => hR.bind (hR.liftFault i.heedless_asOrdinal) fun _ => ?_
    exact hR.bind ihb fun _ => hR.pure _
  case charAt =>
    intro base index ihb ihi
    rw [Place.resolve, Place.resolve]
    refine hR.bind ihi.1 fun i => hR.bind (hR.liftFault i.heedless_asOrdinal) fun _ => ?_
    exact hR.bind ihb fun _ => hR.pure _
  case deref =>
    intro pointer ih
    rw [Place.resolve, Place.resolve]
    refine hR.bind ih.1 fun v => ?_
    split
    · exact hR.pure _
    · exact hR.inert (.fail (by simp))
    · exact hR.inert (.fail (Fault.ne_cancelled (v.isReserved_mismatch _)))
  case value =>
    intro e ih
    rw [Arg.pass, Arg.pass]
    exact hR.bind ih.1 fun _ => hR.pure _
  case reference =>
    intro p ih
    rw [Arg.pass, Arg.pass]
    exact hR.bind ih fun _ => hR.pure _

theorem eval (e : Expr) : R (e.eval env caller chain) (e.eval env' caller' chain) :=
  ((evaluation hR he hc).1 e).1

theorem resolve (p : Place) : R (p.resolve env caller chain) (p.resolve env' caller' chain) :=
  (evaluation hR he hc).2.1 p

theorem evalArgs (args : List Arg) :
    R (Pascal.evalArgs env caller chain args) (Pascal.evalArgs env' caller' chain args) :=
  evalArgs_of hR fun arg _ => (evaluation hR he hc).2.2 arg

end Related

end Env

namespace Run

/-- What runs around the action of a statement. -/
def statement (env : Env) (chain : Chain) (s : Stmt) (x : Run Flow) : Run Flow := do
  located s.pos checkCancelled
  announce env chain s
  let flow ← located s.pos x
  releaseForgotten env []
  return flow

/-- What runs before the action of a statement. -/
def opening (env : Env) (chain : Chain) (s : Stmt) : Run Unit := do
  located s.pos checkCancelled
  announce env chain s

theorem statement_eq_opening (env : Env) (chain : Chain) (s : Stmt) (x : Run Flow) :
    statement env chain s x = (do
      opening env chain s
      let flow ← located s.pos x
      releaseForgotten env []
      return flow) := by
  rw [opening, bind_assoc]
  rfl

theorem opening_of_live (env : Env) (chain : Chain) (s : Stmt) {m : Machine}
    (h : m.world.cancelled = false) :
    opening env chain s m = .ok () (if s.isBlock then m else m.announce env chain s.pos) := by
  have hcheck : located s.pos checkCancelled m = .ok () m := by simp [located, checkCancelled, h]
  simp only [opening, Bind.bind, EStateM.bind, hcheck, announce]

theorem opening_of_cancelled (env : Env) (chain : Chain) (s : Stmt) {m : Machine}
    (h : m.world.cancelled) : opening env chain s m = .error (.fault .cancelled (some s.pos)) m := by
  simp [opening, Bind.bind, EStateM.bind, located, checkCancelled, h]

end Run

/-- Statements are actions between the same beginning and the same end. -/
theorem Stmt.exec_eq_statement (env : Env) (caller : Caller) (chain : Chain) (s : Stmt) :
    ∃ x, s.exec env caller chain = Run.statement env chain s x := by
  cases s with
  | ifThen c yes no p => cases no <;> exact ⟨_, rfl⟩
  | caseOf selector arms otherwise p => cases otherwise <;> exact ⟨_, rfl⟩
  | _ => exact ⟨_, rfl⟩

namespace Env

/-- Two environments whose statements begin with related things. -/
structure Abreast (R : ∀ {α : Type}, Run α → Run α → Prop) (env env' : Env) : Prop
    extends env.Related @R env' where
  rounds : env'.rounds = env.rounds
  check : R Run.checkCancelled Run.checkCancelled
  opening : ∀ chain s, R (Run.opening env chain s) (Run.opening env' chain s)

/-- Two environments of the same program whose statements begin with related things. -/
structure Parallel (R : ∀ {α : Type}, Run α → Run α → Prop) (env env' : Env) : Prop
    extends env.Abreast @R env' where
  program : env'.program = env.program

namespace Abreast

variable (hR : Run.Congruence @R) (he : env.Abreast @R env')

section

include hR he

theorem releaseForgotten (vs : List Value) :
    R (Run.releaseForgotten env vs) (Run.releaseForgotten env' vs) := by
  have hsame : Run.releaseForgotten env' vs = Run.releaseForgotten env vs := by
    have hmachine : ∀ m : Machine, m.releaseForgotten env' = m.releaseForgotten env := by
      intro m
      have hslots : m.slots env' = m.slots env := by rw [Machine.slots, Machine.slots, he.globals]
      have hsight : m.filesInSight env' = m.filesInSight env := by
        rw [Machine.filesInSight, Machine.filesInSight, hslots]
      have hused : m.filesInUse env' = m.filesInUse env := by
        rw [Machine.filesInUse, Machine.filesInUse, Machine.roots, Machine.roots, hslots]
      rw [Machine.releaseForgotten, Machine.releaseForgotten, hsight, hused]
    simp only [Run.releaseForgotten, hmachine]
  rw [hsame]
  exact hR.inert (.releaseForgotten env vs)

theorem statement {s : Stmt} {x y : Run Flow} (h : R x y) :
    R (Run.statement env chain s x) (Run.statement env' chain s y) := by
  rw [Run.statement_eq_opening, Run.statement_eq_opening]
  refine hR.bind (he.opening chain s) fun _ => hR.bind (hR.located s.pos h) fun _ => ?_
  exact hR.bind (he.releaseForgotten hR []) fun _ => hR.pure _

end

variable (hc : caller.Related @R caller')
include hR he hc

theorem exec (s : Stmt) : R (s.exec env caller chain) (s.exec env' caller' chain) := by
  have heval : ∀ e : Expr, R (e.eval env caller chain) (e.eval env' caller' chain) :=
    he.eval hR hc
  have hresolve : ∀ p : Place, R (p.resolve env caller chain) (p.resolve env' caller' chain) :=
    he.resolve hR hc
  have hstore : ∀ (target : Place) (v : Value), R
      (do Run.set (← Run.holding [v] (target.resolve env caller chain)) v; return Flow.normal)
      (do Run.set (← Run.holding [v] (target.resolve env' caller' chain)) v; return Flow.normal) :=
    fun target v => hR.bind (hR.holding [v] (hresolve target)) fun r =>
      hR.bind (hR.inert (.set r v)) fun _ => hR.pure _
  have hall : ∀ {ss : List Stmt},
      (∀ s ∈ ss, R (s.exec env caller chain) (s.exec env' caller' chain)) →
      R (execAll env caller chain ss) (execAll env' caller' chain ss) := by
    intro ss h
    induction ss with
    | nil => exact hR.pure _
    | cons s ss ih =>
      obtain ⟨hs, hss⟩ := List.forall_mem_cons.mp h
      rw [execAll, execAll]
      refine hR.bind hs fun flow => ?_
      cases flow <;> first | exact ih hss | exact hR.pure _
  have harm : ∀ {arms : List Arm} (ordinal : Int),
      (∀ labels s, .mk labels s ∈ arms → R (s.exec env caller chain) (s.exec env' caller' chain)) →
      R (execArm env caller chain ordinal arms) (execArm env' caller' chain ordinal arms) := by
    intro arms ordinal h
    induction arms with
    | nil => exact hR.pure _
    | cons arm arms ih =>
      obtain ⟨labels, body⟩ := arm
      rw [execArm, execArm]
      split
      · exact hR.bind (h labels body List.mem_cons_self) fun _ => hR.pure _
      · exact ih fun l b hm => h l b (List.mem_cons_of_mem _ hm)
  induction s using Stmt.induction with
  | block body pos ih =>
    rw [Stmt.exec, Stmt.exec]
    exact he.statement hR (hall ih)
  | assign target value pos =>
    rw [Stmt.exec, Stmt.exec]
    exact he.statement hR (hR.bind (heval value) (hstore target))
  | call callee name args pos =>
    rw [Stmt.exec, Stmt.exec]
    refine he.statement hR (hR.bind (he.evalArgs hR hc args) fun passed => ?_)
    exact hR.bind (he.call hc chain callee passed) fun _ => hR.pure _
  | ifThen condition yes no pos ihyes ihno =>
    cases no with
    | none =>
      rw [Stmt.exec, Stmt.exec]
      refine he.statement hR (hR.bind (hR.truth (heval condition)) fun holds => ?_)
      split
      · exact ihyes
      · exact hR.pure _
    | some no =>
      rw [Stmt.exec, Stmt.exec]
      refine he.statement hR (hR.bind (hR.truth (heval condition)) fun holds => ?_)
      split
      · exact ihyes
      · exact ihno no rfl
  | whileDo condition body pos ih =>
    rw [Stmt.exec, Stmt.exec, he.rounds]
    exact he.statement hR (hR.whileRounds (hR.truth (heval condition)) he.check ih _)
  | repeatUntil body condition pos ih =>
    rw [Stmt.exec, Stmt.exec, he.rounds]
    exact he.statement hR (hR.repeatRounds (hR.truth (heval condition)) he.check (hall ih) _)
  | forDo counter first direction last body pos ih =>
    rw [Stmt.exec, Stmt.exec]
    refine he.statement hR (hR.bind (heval first) fun start => ?_)
    refine hR.bind (heval last) fun v => hR.bind (hR.liftFault v.heedless_asOrdinal) fun stop => ?_
    refine hR.bind (hresolve counter) fun r => hR.bind (hR.inert (.set r start)) fun _ => ?_
    refine hR.bind (hR.liftFault start.heedless_asOrdinal) fun begins => ?_
    refine hR.forRounds (fun current => ?_) he.check ih _ _
    exact hR.bind (hR.liftFault (start.heedless_withOrdinal current)) fun v => hR.inert (.set r v)
  | caseOf selector arms otherwise pos iharms ihotherwise =>
    cases otherwise with
    | none =>
      rw [Stmt.exec, Stmt.exec]
      refine he.statement hR (hR.bind (heval selector) fun v => ?_)
      refine hR.bind (hR.liftFault v.heedless_asOrdinal) fun ordinal => ?_
      refine hR.bind (harm ordinal iharms) fun flow => ?_
      cases flow <;> exact hR.pure _
    | some s =>
      rw [Stmt.exec, Stmt.exec]
      refine he.statement hR (hR.bind (heval selector) fun v => ?_)
      refine hR.bind (hR.liftFault v.heedless_asOrdinal) fun ordinal => ?_
      refine hR.bind (harm ordinal iharms) fun flow => ?_
      cases flow with
      | none => exact ihotherwise s rfl
      | some flow => exact hR.pure _
  | breakLoop | continueLoop | exitRoutine | empty =>
    rw [Stmt.exec, Stmt.exec]
    exact he.statement hR (hR.pure _)
  | new target pointee pos =>
    rw [Stmt.exec, Stmt.exec]
    refine he.statement hR ?_
    refine hR.bind (hR.inert (.onWorld fun w s => w.initialValue_withSigns s pointee)) fun v => ?_
    refine hR.bind (hR.inert (.onWorld fun w s => w.alloc_withSigns s v)) fun storage => ?_
    exact hstore target (.pointer (some storage))
  | dispose target pos =>
    rw [Stmt.exec, Stmt.exec]
    refine he.statement hR (hR.bind (hresolve target) fun r => ?_)
    refine hR.bind (hR.inert (.get r)) fun v => ?_
    split
    · exact hR.inert (.fail (by simp))
    · exact hR.bind (hR.inert (.set r _)) fun _ => hR.pure _

omit hc

/-- Activations begin with the same frame, run related bodies in it and read their results alike. -/
theorem activate {f f' : UserRoutine} {body body' : Stmt} {args : List Passed}
    (hframe : f'.newFrame (env'.program.arena.scope f'.scope).vars args =
      f.newFrame (env.program.arena.scope f.scope).vars args)
    (hdeclared : f'.declaredIn = f.declaredIn) (hresult : f'.signature.result = f.signature.result)
    (hbody : ∀ chain, R (body.exec env caller chain) (body'.exec env' caller' chain)) :
    R (env.activate caller chain f body args) (env'.activate caller' chain f' body' args) := by
  have hrelease : ∀ result : Option Value,
      R (do Run.releaseForgotten env result.toList; return result)
        (do Run.releaseForgotten env' result.toList; return result) :=
    fun result => hR.bind (he.releaseForgotten hR _) fun _ => hR.pure _
  have houter : f'.outerFrames chain = f.outerFrames chain := by
    rw [UserRoutine.outerFrames, hdeclared, UserRoutine.outerFrames]
  rw [Env.activate, Env.activate, hframe, houter, hresult]
  refine hR.bind (hR.inert (.onWorld (f.newFrame_inert _ args))) fun frame => ?_
  refine hR.bind (hR.activating frame (hbody _)) fun _ => ?_
  split
  · exact hR.bind (hR.pure none) hrelease
  · split
    · exact hR.bind (hR.inert (.fail (by simp))) hrelease
    · next r _ =>
      exact hR.bind (hR.bind (hR.inert (.get r)) fun v => hR.pure (some v)) hrelease

end Abreast

namespace Parallel

variable (hR : Run.Congruence @R) (he : env.Parallel @R env') (hc : caller.Related @R caller')
include hR he hc

theorem activate (f : UserRoutine) (body : Stmt) (args : List Passed) :
    R (env.activate caller chain f body args) (env'.activate caller' chain f body args) := by
  refine he.toAbreast.activate hR ?_ rfl rfl fun _ => he.exec hR hc body
  rw [he.program]

omit hc

/-- Calls that may nest equally deep do related things. -/
theorem callWithin (hdepth : env'.settings.maxCallDepth = env.settings.maxCallDepth) (depth : Nat) :
    (env.callWithin depth).Related @R (env'.callWithin depth) := by
  induction depth with
  | zero =>
    intro chain id args
    rw [Env.callWithin, Env.callWithin, he.program, hdepth]
    cases (env.program.arena.function id).body <;> exact hR.inert (.fail (by simp))
  | succ depth ih =>
    intro chain id args
    rw [Env.callWithin, Env.callWithin, he.program]
    cases (env.program.arena.function id).body with
    | none => exact hR.inert (.fail (by simp))
    | some body => exact he.activate hR ih _ body args

/-- Whole runs of the same program do related things where the calls in them do. -/
theorem stages (hc : (env.callWithin env.settings.maxCallDepth).Related @R
    (env'.callWithin env'.settings.maxCallDepth)) :
    R (env.program.stages.forM env.execTop) (env'.program.stages.forM env'.execTop) := by
  rw [he.program]
  refine hR.forM fun s _ => ?_
  rw [execTop, execTop]
  exact hR.bind (he.exec hR hc s) fun _ => hR.pure ()

end Parallel

end Env

end Pascal
