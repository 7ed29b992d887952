import Pascal.Proofs.Run.Steps
import Pascal.Proofs.Tree.All

/-!
# The parts of code

A call goes on with parts of its code, whatever values it finds on the way. What holds of all parts of a
tree therefore holds of all code that comes up where the tree is run, up to the bodies of routines.
-/

namespace Pascal

variable {α : Type} {env : Env} {depth : Nat} {chain : Chain} {f : Expr → Bool} {g : Place → Bool}
  {h : Stmt → Bool} {P : Callee → Prop}

/-- All expressions, places and statements in code have properties, and so has a routine that it calls. -/
def Code.All (f : Expr → Bool) (g : Place → Bool) (h : Stmt → Bool) (P : Callee → Prop) {α : Type} :
    Code α → Prop
  | .expr e => e.all f g
  | .place p => p.all f g
  | .items es => ∀ e ∈ es, e.all f g
  | .arg x => x.all f g
  | .args xs => ∀ x ∈ xs, x.all f g
  | .call callee _ => P callee
  | .stmt s => s.all f g h
  | .stmts ss => ∀ s ∈ ss, s.all f g h
  | .arms _ xs => ∀ labels body, .mk labels body ∈ xs → body.all f g h
  | .whileRounds condition body _ => condition.all f g ∧ body.all f g h
  | .repeatRounds body condition _ => (∀ s ∈ body, s.all f g h) ∧ condition.all f g
  | .forRounds _ _ _ body _ _ => body.all f g h

section Planned

attribute [local simp] Task.plan Code.All.eq_1 Code.All.eq_2 Code.All.eq_3 Code.All.eq_4 Code.All.eq_5
  Code.All.eq_6 Code.All.eq_7 Code.All.eq_8 Code.All.eq_9 Code.All.eq_10 Code.All.eq_11 Code.All.eq_12
  Expr.all Place.all Arg.all Stmt.all Arm.all allExprs_iff allArgs_iff allStmts_iff allArms_iff allOption

/-- Code that is no call of a routine of the program goes on with its parts. -/
theorem Task.plan_all (hexpr : ∀ callee name args n, f (.call callee name args n) → P callee)
    (hstmt : ∀ callee name args p, h (.call callee name args p) → P callee) (c : Code α)
    (hc : c.All f g h P) (hcall : c.isActivation = false) :
    (Task.plan env ⟨c, chain, depth⟩).Own (fun _ => True) fun t => t.code.All f g h P := by
  cases c with
  | expr e =>
    cases e with
    | format v w p n => cases p <;> simp_all [Expr.plan]
    | call callee name args n =>
      have hcallee := hexpr callee name args n
      simp_all [Expr.plan]
      intro result
      cases result <;> simp
    | _ => simp_all [Expr.plan]
  | place p =>
    cases p with
    | deref pointer =>
      simp_all [Place.plan]
      intro v
      cases v with
      | pointer target => cases target <;> simp
      | _ => simp
    | _ => simp_all [Place.plan]
  | items es =>
    cases es with
    | nil => simp [planItems]
    | cons e es => cases e <;> simp_all [planItems]
  | arg x => cases x <;> simp_all [Arg.plan]
  | args xs => cases xs <;> simp_all [planArgs]
  | call callee passed =>
    cases callee with
    | user id => cases hcall
    | native id =>
      simp only [Task.plan, Env.planCall]
      split <;> trivial
  | stmt s =>
    cases s with
    | call callee name args p =>
      have hcallee := hstmt callee name args p
      simp_all [Stmt.plan, Stmt.planAction]
    | ifThen condition yes no p => cases no <;> simp_all [Stmt.plan, Stmt.planAction, planTruth]
    | caseOf selector arms otherwise p =>
      cases otherwise with
      | none =>
        simp_all [Stmt.plan, Stmt.planAction]
        refine ⟨hc.2, fun flow => ?_⟩
        cases flow <;> simp
      | some otherwise =>
        simp_all [Stmt.plan, Stmt.planAction]
        refine ⟨hc.1.2, fun flow => ?_⟩
        cases flow <;> simp_all
    | dispose target p =>
      simp_all [Stmt.plan, Stmt.planAction]
      intro _ v
      cases v with
      | pointer target => cases target <;> simp
      | _ => simp
    | _ => simp_all [Stmt.plan, Stmt.planAction]
  | stmts ss =>
    cases ss with
    | nil => simp [planAll]
    | cons s ss =>
      simp_all [planAll]
      intro flow
      cases flow <;> simp_all
  | arms ordinal xs =>
    cases xs with
    | nil => simp [planArm]
    | cons x xs =>
      obtain ⟨labels, body⟩ := x
      simp_all [planArm]
      exact ⟨fun _ _ _ => hc labels body (.inl ⟨rfl, rfl⟩), fun _ labels body hm =>
        hc labels body (.inr hm)⟩
  | whileRounds condition body rounds =>
    cases rounds with
    | zero => simp [planWhile]
    | succ n =>
      simp_all [planWhile, planTruth]
      intro flow
      cases flow <;> simp_all
  | repeatRounds body condition rounds =>
    cases rounds with
    | zero => simp [planRepeat]
    | succ n =>
      simp_all [planRepeat, planTruth]
      intro flow
      cases flow <;> simp_all
  | forRounds step counter start body rounds current =>
    cases rounds with
    | zero => simp [planFor]
    | succ n =>
      simp_all [planFor]
      intro flow
      cases flow <;> simp_all

end Planned

end Pascal
