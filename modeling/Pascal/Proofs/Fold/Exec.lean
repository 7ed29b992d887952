import Pascal.Proofs.Fold.Eval
import Pascal.Proofs.Library.Standard
import Pascal.Proofs.Machine.Forgotten
import Pascal.Proofs.Machine.Outcomes
import Pascal.Proofs.Run.Relation
import Pascal.Proofs.Typing.Stmt

/-!
# Folded statements run like the statements

A run that is never cancelled passes every check for that. Two computations agree if they do the same on all
machines of such a run. So, without a listener, a folded statement agrees with the statement. Where folding
leaves a check or a round of letting files go out, that would have changed nothing.
-/

namespace Pascal

/-! ## Computations that agree -/

namespace Run

variable {α β : Type}

/-- Two computations do the same on machines that have not been cancelled, and cancel none. -/
def Agrees (x y : Run α) : Prop :=
  ∀ m, m.world.cancelled = false → x m = y m ∧ (after (y m)).world.cancelled = false

namespace Agrees

variable {x y z : Run α} {f g : α → Run β}

theorem trans (h : Agrees x y) (h' : Agrees y z) : Agrees x z := fun m hm =>
  ⟨(h m hm).1.trans (h' m hm).1, (h' m hm).2⟩

theorem symm (h : Agrees x y) : Agrees y x := fun m hm =>
  ⟨(h m hm).1.symm, (h m hm).1 ▸ (h m hm).2⟩

theorem refl_left (h : Agrees x y) : Agrees x x := h.trans h.symm

theorem refl_right (h : Agrees x y) : Agrees y y := h.symm.trans h

theorem bind (h : Agrees x y) (hf : ∀ a, Agrees (f a) (g a)) : Agrees (x >>= f) (y >>= g) := by
  intro m hm
  obtain ⟨he, hc⟩ := h m hm
  simp only [Bind.bind, EStateM.bind, he]
  cases hy : y m with
  | ok a m' => rw [hy] at hc; exact hf a m' hc
  | error e m' => rw [hy] at hc; exact ⟨rfl, hc⟩

theorem pure (a : α) : Agrees (Pure.pure a) (Pure.pure a) := fun _ hm => ⟨rfl, hm⟩

theorem fail (f : Fault) : Agrees (Run.fail f : Run α) (Run.fail f) := fun _ hm => ⟨rfl, hm⟩

theorem liftFault (r : Except Fault α) : Agrees (Run.liftFault r) (Run.liftFault r) := by
  cases r with
  | ok a => exact pure a
  | error f => exact fail f

theorem inert (hx : x.Inert) : Agrees x x := fun m hm =>
  ⟨rfl, (congrArg Signs.cancelled (hx.signs m)).trans hm⟩

theorem holding (h : Agrees x y) (vs : List Value) : Agrees (holding vs x) (holding vs y) := by
  intro m hm
  obtain ⟨he, hc⟩ := h { m with held := vs ++ m.held } hm
  simp only [Run.holding, he]
  refine ⟨trivial, ?_⟩
  split <;> next hy => rw [hy] at hc; exact hc

theorem activating (h : Agrees x y) (f : Frame) : Agrees (activating f x) (activating f y) := by
  intro m hm
  obtain ⟨he, hc⟩ := h { m with active := f :: m.active } hm
  simp only [Run.activating, he]
  refine ⟨trivial, ?_⟩
  split <;> next hy => rw [hy] at hc; exact hc

theorem located (h : Agrees x y) (pos : Position) : Agrees (located pos x) (located pos y) := by
  intro m hm
  obtain ⟨he, hc⟩ := h m hm
  simp only [Run.located, he]
  refine ⟨trivial, ?_⟩
  split
  · next hy => rw [hy] at hc; exact hc
  · exact hc

/-- The check of a run that is not cancelled does nothing. -/
theorem checkCancelled : Agrees checkCancelled (Pure.pure ()) := by
  intro m hm
  refine ⟨?_, hm⟩
  unfold Run.checkCancelled
  rw [hm]
  rfl

/-- What agrees goes on agreeing however it is put together. -/
theorem congruence : Congruence @Agrees :=
  ⟨inert, bind, fun pos h => h.located pos, fun vs h => h.holding vs, fun f h => h.activating f⟩

end Agrees

end Run

/-! ## Folding -/

variable {d : Discipline} {a : Arena} {env : Env} {caller caller' : Caller} {chain : Chain}

/-- What runs the folded program in place of the program. -/
def Env.folded (env : Env) : Env := { env with program := env.program.fold }

/-- A run without a listener, whose loops may have some rounds, and whose library routines do not
cancel it. -/
structure Env.Quiet (env : Env) : Prop where
  listener : env.listener = none
  rounds : 0 < env.rounds
  natives : ∀ (id : Nat) r, env.program.arena.natives[id]? = some r → r.Quiet

namespace Caller

/-- Routines are called with the same effect. -/
def Agrees (caller caller' : Caller) : Prop := caller.Related @Run.Agrees caller'

end Caller

/-- Library routines do the same for the folded program. -/
theorem Env.Quiet.related (hq : env.Quiet) : env.folded.Related @Run.Agrees env where
  globals := rfl
  native caller caller' chain id args := by
    have hcall : env.folded.call caller chain (.native id) args =
        env.call caller' chain (.native id) args := rfl
    rw [hcall]
    unfold Env.call
    dsimp only
    split
    · next r hr =>
      intro m hm
      refine ⟨rfl, ?_⟩
      have hquiet := hq.natives id r hr (args.map Passed.toValue) m.world hm
      unfold Run.ofHost
      split <;> next he => rw [he] at hquiet; exact hquiet
    · exact .fail _

section Evaluation

variable (hq : env.Quiet) (hc : caller'.Agrees caller)
include hq hc

/-- A folded expression is evaluated in the folded program like the expression in the program. -/
theorem Expr.Typed.eval_agrees {e : Expr} (h : e.Typed d a) :
    Run.Agrees (e.fold.eval env.folded caller' chain) (e.eval env caller chain) := by
  rw [h.eval_fold]
  exact hq.related.eval Run.Agrees.congruence hc e

theorem Place.Typed.resolve_agrees {p : Place} {t : Ty} (h : p.Typed d a t) :
    Run.Agrees (p.fold.resolve env.folded caller' chain) (p.resolve env caller chain) := by
  rw [h.resolve_fold]
  exact hq.related.resolve Run.Agrees.congruence hc p

theorem evalArgs_agrees_of_typed {further : Option (Ty × ParamMode)} {params : List Parameter}
    {args : List Arg} (h : argsTyped d a further args params) :
    Run.Agrees (evalArgs env.folded caller' chain (foldArgs args))
      (evalArgs env caller chain args) := by
  rw [Expr.evalArgs_fold_of_typed h]
  exact hq.related.evalArgs Run.Agrees.congruence hc args

end Evaluation

namespace Run

theorem releaseForgotten_nil (env : Env) (m : Machine) :
    releaseForgotten env [] m = .ok () (m.releaseForgotten env) := by
  have hheld := (Machine.keeps_releaseForgotten env m).held
  change EStateM.Result.ok () { m.releaseForgotten env with held := m.held } = _
  rw [← hheld]

theorem announce_of_quiet (hq : env.Quiet) (chain : Chain) (s : Stmt) :
    announce env chain s = pure () := by
  funext m
  simp [announce, Machine.announce, hq.listener]
  rfl

theorem agrees_releaseForgotten (env : Env) :
    Agrees (releaseForgotten env []) (releaseForgotten env []) := by
  intro m hm
  rw [releaseForgotten_nil]
  exact ⟨rfl, (Machine.keeps_releaseForgotten env m).cancelled.trans hm⟩

theorem statement_agrees (hq : env.Quiet) {s s' : Stmt} (hpos : s'.pos = s.pos) {x x' : Run Flow}
    (h : Agrees x' x) : Agrees (statement env.folded chain s' x') (statement env chain s x) := by
  have hfolded : env.folded.Quiet := ⟨hq.listener, hq.rounds, hq.natives⟩
  unfold statement
  rw [announce_of_quiet hq, announce_of_quiet hfolded, hpos]
  refine (Agrees.checkCancelled.refl_left.located _).bind fun _ => (Agrees.pure _).bind fun _ => ?_
  exact (h.located _).bind fun flow => (agrees_releaseForgotten env).bind fun _ => .pure _

/-- A statement says of its faults where they happened. -/
theorem statement_ne_fault {s : Stmt} {x : Run Flow} {m m' : Machine} {f : Fault} :
    statement env chain s x m ≠ .error (.fault f none) m' := by
  have hlocated : ∀ {α : Type} (y : Run α) m m', located s.pos y m ≠ .error (.fault f none) m' := by
    intro α y m m'
    unfold located
    split
    · simp
    · next h => exact fun he => h f m' he
  intro h
  rcases EStateM.bind_eq_error_iff.mp h with he | ⟨_, _, -, h⟩
  · exact hlocated _ _ _ he
  rcases EStateM.bind_eq_error_iff.mp h with he | ⟨_, _, -, h⟩
  · cases he
  rcases EStateM.bind_eq_error_iff.mp h with he | ⟨_, _, -, h⟩
  · exact hlocated _ _ _ he
  rcases EStateM.bind_eq_error_iff.mp h with he | ⟨_, _, -, h⟩
  · rw [releaseForgotten_nil] at he
    cases he
  · cases h

/-- A statement leaves no forgotten files. -/
theorem statement_clean {s : Stmt} {x : Run Flow} {m m' : Machine} {flow : Flow}
    (h : statement env chain s x m = .ok flow m') : m'.releaseForgotten env = m' := by
  obtain ⟨_, _, -, h⟩ := EStateM.bind_eq_ok_iff.mp h
  obtain ⟨_, _, -, h⟩ := EStateM.bind_eq_ok_iff.mp h
  obtain ⟨_, m₁, -, h⟩ := EStateM.bind_eq_ok_iff.mp h
  obtain ⟨_, m₂, hreleased, h⟩ := EStateM.bind_eq_ok_iff.mp h
  rw [releaseForgotten_nil] at hreleased
  cases hreleased
  cases h
  exact Machine.releaseForgotten_idem env m₁

/-- A statement that does nothing but run another one does what that one does. -/
theorem agrees_statement (hq : env.Quiet) {s t : Stmt} {x y : Run Flow}
    (hy : y = statement env chain t x) (h : Agrees y y) : Agrees y (statement env chain s y) := by
  intro m hm
  have hcheck : located s.pos checkCancelled m = .ok () m := by
    simp [located, checkCancelled, hm]
  have houter : statement env chain s y m = y m := by
    unfold statement
    rw [announce_of_quiet hq]
    simp only [Bind.bind, EStateM.bind, hcheck, Pure.pure, EStateM.pure, releaseForgotten_nil]
    cases hr : y m with
    | ok flow m' =>
      have hclean := statement_clean (hy ▸ hr)
      simp only [located, hr, hclean]
    | error e m' =>
      cases e with
      | exhausted => simp only [located, hr]
      | fault f pos =>
        cases pos with
        | none => exact absurd (hy ▸ hr) statement_ne_fault
        | some pos => simp only [located, hr]
  exact ⟨houter.symm, houter ▸ (h m hm).2⟩

end Run

namespace Value

/-- Ordinals are compared by their numbers. -/
private theorem compare_of_ordinal {b : Basic} {v w : Value} (hb : (Ty.basic b).isOrdinal)
    (hv : v.basic? = some b) (hw : w.basic? = some b) :
    ∃ x y, v.asOrdinal = .ok x ∧ w.asOrdinal = .ok y ∧ compare v w = .ok (order x y) := by
  have hchar : ∀ c c' : Char, order c c' = order (c.toNat : Int) c'.toNat := by
    intro c c'
    have hlt : ∀ a b : Char, a < b ↔ (a.toNat : Int) < b.toNat := fun a b => by
      rw [Int.ofNat_lt]; exact Iff.rfl
    simp only [order, hlt]
  cases b with
  | boolean =>
    obtain ⟨x, rfl⟩ := eq_boolean hv
    obtain ⟨y, rfl⟩ := eq_boolean hw
    refine ⟨_, _, rfl, rfl, ?_⟩
    cases x <;> cases y <;> rfl
  | char =>
    obtain ⟨x, rfl⟩ := eq_char hv
    obtain ⟨y, rfl⟩ := eq_char hw
    exact ⟨_, _, rfl, rfl, congrArg _ (hchar x y)⟩
  | integer =>
    obtain ⟨x, rfl⟩ := eq_integer hv
    obtain ⟨y, rfl⟩ := eq_integer hw
    exact ⟨_, _, rfl, rfl, rfl⟩
  | long =>
    obtain ⟨x, rfl⟩ := eq_long hv
    obtain ⟨y, rfl⟩ := eq_long hw
    exact ⟨_, _, rfl, rfl, rfl⟩
  | double | string => cases hb

end Value

/-- The bounds of a loop that never runs leave no value for its counter. -/
theorem Stmt.rounds_of_neverRuns {first last : Expr} {direction : Direction}
    (h : neverRuns first direction last) (ho : first.ty.isOrdinal) (hf : first.Typed d a)
    (hl : last.Typed d a) (hty : last.ty = first.ty) :
    ∃ v w x y, first.literal? = some v ∧ last.literal? = some w ∧ v.asOrdinal = .ok x ∧
      w.asOrdinal = .ok y ∧ direction.rounds x y = 0 := by
  unfold neverRuns at h
  split at h
  · next v w hv hw =>
    obtain ⟨b, hb⟩ : ∃ b, first.ty = .basic b := by
      revert ho
      cases first.ty with
      | basic b => exact fun _ => ⟨b, rfl⟩
      | _ => simp [Ty.isOrdinal]
    have hvb := (hf.fits hv).type
    have hwb := (hl.fits hw).type
    rw [hty] at hwb
    rw [hb] at hvb hwb ho
    obtain ⟨x, y, hx, hy, hcompare⟩ := Value.compare_of_ordinal ho hvb hwb
    refine ⟨v, w, x, y, hv, hw, hx, hy, ?_⟩
    cases direction with
    | up =>
      have hgt : Value.order x y = some .gt := by
        simp only [Value.binary, hcompare, if_pos] at h
        cases ho : Value.order x y with
        | none => rw [ho] at h; cases h
        | some o => rw [ho] at h; cases o <;> first | rfl | cases h
      have hlt : y < x := by
        unfold Value.order at hgt
        split at hgt
        · cases hgt
        · split at hgt
          · assumption
          · cases hgt
      simp only [Direction.rounds, Int.toNat_eq_zero]
      omega
    | down =>
      have hlt : Value.order x y = some .lt := by
        simp only [Value.binary, hcompare, reduceCtorEq] at h
        cases ho : Value.order x y with
        | none => rw [ho] at h; cases h
        | some o => rw [ho] at h; cases o <;> first | rfl | cases h
      have hlt : x < y := by
        unfold Value.order at hlt
        split at hlt
        · assumption
        · split at hlt <;> cases hlt
      simp only [Direction.rounds, Int.toNat_eq_zero]
      omega
  · cases h

/-- A condition that folds to a truth value has it. -/
theorem Stmt.eval_of_constantCondition? {e : Expr} {b : Bool} (he : e.Typed d a)
    (h : constantCondition? e.fold = some b) :
    e.eval env caller chain = pure (.boolean b) := by
  rw [← he.eval_fold]
  unfold constantCondition? at h
  split at h <;> cases h
  next hf => rw [hf]; rfl

namespace Stmt

private theorem execAll_agrees {ss : List Stmt}
    (h : ∀ s ∈ ss, s.Typed d a →
      Run.Agrees (s.fold.exec env.folded caller' chain) (s.exec env caller chain))
    (ht : ∀ s ∈ ss, s.Typed d a) :
    Run.Agrees (execAll env.folded caller' chain (ss.map Stmt.fold))
      (execAll env caller chain ss) := by
  induction ss with
  | nil => exact .pure _
  | cons s ss ih =>
    obtain ⟨hs, hss⟩ := List.forall_mem_cons.mp h
    obtain ⟨hts, htss⟩ := List.forall_mem_cons.mp ht
    rw [List.map_cons, execAll, execAll]
    refine (hs hts).bind fun flow => ?_
    cases flow <;> first | exact ih hss htss | exact .pure _

private theorem execArm_agrees {arms : List Arm} {ordinal : Int}
    (h : ∀ labels body, .mk labels body ∈ arms → body.Typed d a →
      Run.Agrees (body.fold.exec env.folded caller' chain) (body.exec env caller chain))
    (ht : ∀ labels body, .mk labels body ∈ arms → body.Typed d a) :
    Run.Agrees (execArm env.folded caller' chain ordinal (arms.map Arm.fold))
      (execArm env caller chain ordinal arms) := by
  induction arms with
  | nil => exact .pure _
  | cons arm arms ih =>
    obtain ⟨labels, body⟩ := arm
    rw [List.map_cons, Arm.fold, execArm, execArm]
    split
    · refine (h labels body List.mem_cons_self (ht labels body List.mem_cons_self)).bind ?_
      exact fun _ => .pure _
    · exact ih (fun l b hm => h l b (List.mem_cons_of_mem _ hm))
        (fun l b hm => ht l b (List.mem_cons_of_mem _ hm))

/-- A choice whose condition holds runs its first branch. -/
private theorem exec_ifThen_of_true {condition : Expr} {yes : Stmt} {no : Option Stmt} {pos : Position}
    (h : condition.eval env caller chain = pure (.boolean true)) :
    (ifThen condition yes no pos).exec env caller chain =
      Run.statement env chain (.ifThen condition yes no pos) (yes.exec env caller chain) := by
  cases no <;> (rw [Stmt.exec, h]; rfl)

/-- A choice whose condition does not hold runs its second branch. -/
private theorem exec_ifThen_of_false {condition : Expr} {yes no : Stmt} {pos : Position}
    (h : condition.eval env caller chain = pure (.boolean false)) :
    (ifThen condition yes (some no) pos).exec env caller chain =
      Run.statement env chain (.ifThen condition yes (some no) pos) (no.exec env caller chain) := by
  rw [Stmt.exec, h]
  rfl

/-- A loop without rounds sets its counter to the first value, and that is all. -/
private theorem exec_forDo_of_rounds {counter : Place} {first last : Expr} {direction : Direction}
    {body : Stmt} {pos : Position} {v w : Value} {begins stop : Int}
    (hfirst : first.eval env caller chain = pure v) (hlast : last.eval env caller chain = pure w)
    (hbegins : v.asOrdinal = .ok begins) (hstop : w.asOrdinal = .ok stop)
    (hrounds : direction.rounds begins stop = 0) :
    (forDo counter first direction last body pos).exec env caller chain =
      Run.statement env chain (.forDo counter first direction last body pos) (do
        Run.set (← counter.resolve env caller chain) v
        return .normal) := by
  rw [Stmt.exec, hfirst, hlast]
  simp only [pure_bind, hstop, hbegins, Run.liftFault, hrounds]
  rfl

variable (hq : env.Quiet)
include hq

/-- Where a whole statement has come down to another one, the latter does the same on its own. -/
private theorem agrees_of_reduced {s t : Stmt} {x' : Run Flow}
    (h : Run.Agrees x' (t.exec env caller chain)) :
    Run.Agrees x' (Run.statement env chain s (t.exec env caller chain)) := by
  obtain ⟨x, hx⟩ : ∃ x, t.exec env caller chain = Run.statement env chain t x :=
    t.exec_eq_statement _ _ _
  exact h.trans (Run.agrees_statement hq hx h.refl_right)

variable (hc : caller'.Agrees caller)
include hc

private theorem ifThen_agrees {condition : Expr} {yes : Stmt} {no : Option Stmt} {pos : Position}
    (hcond : condition.Typed d a)
    (hyes : Run.Agrees (yes.fold.exec env.folded caller' chain) (yes.exec env caller chain))
    (hno : ∀ s, no = some s →
      Run.Agrees (s.fold.exec env.folded caller' chain) (s.exec env caller chain)) :
    Run.Agrees ((ifThen condition yes no pos).fold.exec env.folded caller' chain)
      ((ifThen condition yes no pos).exec env caller chain) := by
  have htruth : Run.Agrees (Run.truth (condition.fold.eval env.folded caller' chain))
      (Run.truth (condition.eval env caller chain)) :=
    Run.Agrees.congruence.truth (hcond.eval_agrees hq hc)
  unfold Stmt.fold
  dsimp only
  split
  · next hconst =>
    rw [exec_ifThen_of_true (eval_of_constantCondition? hcond hconst)]
    exact agrees_of_reduced hq hyes
  · next no hconst =>
    rw [exec_ifThen_of_false (eval_of_constantCondition? hcond hconst)]
    exact agrees_of_reduced hq (hno no rfl)
  · next hconst =>
    have hpure : condition.eval env caller chain = pure (.boolean false) :=
      eval_of_constantCondition? hcond hconst
    rw [Stmt.exec, Stmt.exec, hpure]
    exact Run.statement_agrees hq rfl (.pure _)
  · next no _ =>
    rw [Stmt.exec, Stmt.exec]
    refine Run.statement_agrees hq rfl (htruth.bind fun holds => ?_)
    split
    · exact hyes
    · exact hno no rfl
  · rw [Stmt.exec, Stmt.exec]
    refine Run.statement_agrees hq rfl (htruth.bind fun holds => ?_)
    split
    · exact hyes
    · exact .pure _

/-- A loop that never runs is folded to the assignment to its counter. -/
private theorem forDo_agrees_of_neverRuns {v : VarRef} {first last : Expr} {direction : Direction}
    {body : Stmt} {pos : Position} (hnever : neverRuns first.fold direction last.fold)
    (ho : first.ty.isOrdinal) (hcount : (Place.var v).Typed d a first.ty) (hf : first.Typed d a)
    (hl : last.Typed d a) (hty : last.ty = first.ty) :
    Run.Agrees ((assign (Place.var v).fold first.fold pos).exec env.folded caller' chain)
      ((forDo (.var v) first direction last body pos).exec env caller chain) := by
  obtain ⟨x, y, begins, stop, hx, hy, hbegins, hstop, hrounds⟩ :=
    rounds_of_neverRuns hnever (by simpa using ho) hf.fold hl.fold (by simpa using hty)
  have hfirst : first.eval env caller chain = pure x := by
    rw [← hf.eval_fold, Expr.eval_of_literal? hx]
  have hlast : last.eval env caller chain = pure y := by
    rw [← hl.eval_fold, Expr.eval_of_literal? hy]
  have hholding : Run.holding [x] ((Place.var v).fold.resolve env.folded caller' chain) =
      (Place.var v).fold.resolve env.folded caller' chain := Run.holding_liftFault _ _
  rw [exec_forDo_of_rounds hfirst hlast hbegins hstop hrounds, Stmt.exec, Expr.eval_of_literal? hx]
  refine Run.statement_agrees hq rfl ?_
  rw [pure_bind, hholding]
  exact (hcount.resolve_agrees hq hc).bind fun r =>
    (Run.Agrees.inert (.set _ _)).bind fun _ => .pure _

/-- A folded statement runs in the folded program like the statement in the program. -/
theorem Typed.exec_agrees {s : Stmt} (h : s.Typed d a) :
    Run.Agrees (s.fold.exec env.folded caller' chain) (s.exec env caller chain) := by
  induction s using Stmt.induction with
  | block body pos ih =>
    rw [Stmt.fold, foldStmts_eq, Stmt.exec, Stmt.exec]
    exact Run.statement_agrees hq rfl (execAll_agrees ih (stmtsTyped_iff.mp h))
  | assign target value pos =>
    obtain ⟨hv, ht, -⟩ := h
    rw [Stmt.fold, Stmt.exec, Stmt.exec]
    refine Run.statement_agrees hq rfl ((hv.eval_agrees hq hc).bind fun v => ?_)
    exact ((ht.resolve_agrees hq hc).holding _).bind fun r =>
      (Run.Agrees.inert (.set _ _)).bind fun _ => .pure _
  | call callee name args pos =>
    rw [Stmt.fold, Stmt.exec, Stmt.exec]
    refine Run.statement_agrees hq rfl ((evalArgs_agrees_of_typed hq hc h).bind fun passed => ?_)
    exact (hq.related.call hc chain callee passed).bind fun _ => .pure _
  | ifThen condition yes no pos ihyes ihno =>
    obtain ⟨hcond, -, hyes, hno⟩ := h
    refine ifThen_agrees hq hc hcond (ihyes hyes) fun s hs => ?_
    subst hs
    exact ihno s rfl hno
  | whileDo condition body pos ih =>
    obtain ⟨hcond, -, hbody⟩ := h
    have htruth : Run.Agrees (Run.truth (condition.fold.eval env.folded caller' chain))
        (Run.truth (condition.eval env caller chain)) :=
      Run.Agrees.congruence.truth (hcond.eval_agrees hq hc)
    unfold Stmt.fold
    dsimp only
    split
    · next hconst =>
      have hpure : condition.eval env caller chain = pure (.boolean false) :=
        eval_of_constantCondition? hcond hconst
      obtain ⟨n, hn⟩ : ∃ n, env.rounds = n + 1 := ⟨env.rounds - 1, by have := hq.rounds; omega⟩
      rw [Stmt.exec, Stmt.exec, hpure, hn]
      exact Run.statement_agrees hq rfl (.pure _)
    · rw [Stmt.exec, Stmt.exec]
      exact Run.statement_agrees hq rfl
        (Run.Agrees.congruence.whileRounds htruth Run.Agrees.checkCancelled.refl_left (ih hbody) _)
  | repeatUntil body condition pos ih =>
    obtain ⟨hcond, -, hbody⟩ := h
    have htruth : Run.Agrees (Run.truth (condition.fold.eval env.folded caller' chain))
        (Run.truth (condition.eval env caller chain)) :=
      Run.Agrees.congruence.truth (hcond.eval_agrees hq hc)
    rw [Stmt.fold, foldStmts_eq, Stmt.exec, Stmt.exec]
    exact Run.statement_agrees hq rfl (Run.Agrees.congruence.repeatRounds htruth
      Run.Agrees.checkCancelled.refl_left (execAll_agrees ih (stmtsTyped_iff.mp hbody)) _)
  | forDo counter first direction last body pos ih =>
    obtain ⟨⟨v, rfl⟩, ho, hcount, hf, hl, hty, hbody⟩ := h
    rw [Stmt.fold]
    split
    · next hnever => exact forDo_agrees_of_neverRuns hq hc hnever ho hcount hf hl hty
    · rw [Stmt.exec, Stmt.exec]
      refine Run.statement_agrees hq rfl ((hf.eval_agrees hq hc).bind fun start => ?_)
      refine (hl.eval_agrees hq hc).bind fun last => (Run.Agrees.liftFault _).bind fun stop => ?_
      refine (hcount.resolve_agrees hq hc).bind fun r => (Run.Agrees.inert (.set _ _)).bind fun _ => ?_
      refine (Run.Agrees.liftFault _).bind fun begins => ?_
      exact Run.Agrees.congruence.forRounds
        (fun n => (Run.Agrees.liftFault _).bind fun _ => .inert (.set _ _))
        Run.Agrees.checkCancelled.refl_left (ih hbody) _ _
  | caseOf selector arms otherwise pos iharms ihotherwise =>
    obtain ⟨hsel, -, harms, hotherwise⟩ := h
    have harm : ∀ ordinal, Run.Agrees
        (execArm env.folded caller' chain ordinal (arms.map Arm.fold))
        (execArm env caller chain ordinal arms) :=
      fun ordinal => execArm_agrees iharms (armsTyped_iff.mp harms)
    rw [Stmt.fold, foldArms_eq, foldOption_eq]
    cases otherwise with
    | none =>
      rw [Option.map_none, Stmt.exec, Stmt.exec]
      refine Run.statement_agrees hq rfl ((hsel.eval_agrees hq hc).bind fun v => ?_)
      refine (Run.Agrees.liftFault _).bind fun ordinal => (harm ordinal).bind fun flow => ?_
      cases flow <;> exact .pure _
    | some s =>
      rw [Option.map_some, Stmt.exec, Stmt.exec]
      refine Run.statement_agrees hq rfl ((hsel.eval_agrees hq hc).bind fun v => ?_)
      refine (Run.Agrees.liftFault _).bind fun ordinal => (harm ordinal).bind fun flow => ?_
      cases flow with
      | none => exact ihotherwise s rfl hotherwise
      | some flow => exact .pure _
  | breakLoop | continueLoop | exitRoutine | empty =>
    rw [Stmt.fold, Stmt.exec, Stmt.exec]
    exact Run.statement_agrees hq rfl (.pure _)
  | new target pointee pos =>
    have ht : target.Typed d a (.pointer pointee) := h
    rw [Stmt.fold, Stmt.exec, Stmt.exec]
    have hvalue : Run.Agrees (Run.onWorld fun w => w.initialValue pointee)
        (Run.onWorld fun w => w.initialValue pointee) :=
      .inert (.onWorld fun w s => w.initialValue_withSigns s pointee)
    refine Run.statement_agrees hq rfl (hvalue.bind fun v => ?_)
    refine (Run.Agrees.inert (.onWorld fun w s => w.alloc_withSigns s v)).bind fun storage => ?_
    exact ((ht.resolve_agrees hq hc).holding _).bind fun r =>
      (Run.Agrees.inert (.set _ _)).bind fun _ => .pure _
  | dispose target pos =>
    obtain ⟨t, ht⟩ := h
    rw [Stmt.fold, Stmt.exec, Stmt.exec]
    refine Run.statement_agrees hq rfl ((ht.resolve_agrees hq hc).bind fun r => ?_)
    refine (Run.Agrees.inert (.get r)).bind fun v => ?_
    split
    · exact .fail _
    · exact (Run.Agrees.inert (.set _ _)).bind fun _ => .pure _

end Stmt

end Pascal
