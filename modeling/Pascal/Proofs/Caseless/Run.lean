import Pascal.Proofs.Caseless.Program
import Pascal.Proofs.Run.Observed

/-!
# Runs without regard to case

A run looks at no name in a tree, and the slots of variables are named in lower case. So a program runs
in lower case as it does, apart from the names that a listener is told.
-/

namespace Pascal

open Text

section

variable {env : Env} {caller : Caller} {chain : Chain}

private theorem evalItems_lowered {items : List Expr}
    (h : ∀ e ∈ items, e.lowered.eval env caller chain = e.eval env caller chain ∧
      ∀ low high n, e = .range low high n →
        low.lowered.eval env caller chain = low.eval env caller chain ∧
        high.lowered.eval env caller chain = high.eval env caller chain) :
    evalItems env caller chain (items.map Expr.lowered) = evalItems env caller chain items := by
  induction items with
  | nil => rfl
  | cons e items ih =>
    obtain ⟨⟨he, hr⟩, hitems⟩ := List.forall_mem_cons.mp h
    rw [List.map_cons]
    by_cases hrange : ∃ low high n, e = .range low high n
    · obtain ⟨low, high, n, rfl⟩ := hrange
      obtain ⟨hlow, hhigh⟩ := hr low high n rfl
      rw [Expr.lowered, evalItems, evalItems, hlow, hhigh, ih hitems]
    · have hne : ∀ low high n, e ≠ .range low high n := fun low high n h => hrange ⟨low, high, n, h⟩
      rw [evalItems, evalItems, he, ih hitems]
      · exact hne
      · exact Expr.lowered_ne_range hne

private theorem evalArgs_lowered_of {args : List Arg}
    (h : ∀ arg ∈ args, arg.lowered.pass env caller chain = arg.pass env caller chain) :
    evalArgs env caller chain (args.map Arg.lowered) = evalArgs env caller chain args := by
  induction args with
  | nil => rfl
  | cons arg args ih =>
    obtain ⟨harg, hargs⟩ := List.forall_mem_cons.mp h
    rw [List.map_cons, evalArgs, evalArgs, harg, ih hargs]

/-- The bounds of a range are evaluated only as an item, so that ranges are passed by. -/
private theorem evaluation_lowered :
    (∀ e : Expr, e.lowered.eval env caller chain = e.eval env caller chain ∧
      ∀ low high n, e = .range low high n →
        low.lowered.eval env caller chain = low.eval env caller chain ∧
        high.lowered.eval env caller chain = high.eval env caller chain) ∧
    (∀ p : Place, p.lowered.resolve env caller chain = p.resolve env caller chain) ∧
    ∀ arg : Arg, arg.lowered.pass env caller chain = arg.pass env caller chain := by
  refine Expr.induction ?literal ?place ?array ?range ?address ?unary ?binary ?convert ?format
    ?formatReal ?call ?var ?element ?charAt ?deref ?value ?reference
  case literal => exact fun v n => ⟨rfl, by simp⟩
  case place => exact fun p n ih => ⟨by simp [Expr.eval, ih], by simp⟩
  case array =>
    intro lower items n ih
    exact ⟨by simp [Expr.eval, evalItems_lowered ih], by simp⟩
  case range =>
    refine fun low high n ihl ihh => ⟨rfl, ?_⟩
    rintro low high n ⟨⟩
    exact ⟨ihl.1, ihh.1⟩
  case address => exact fun p n ih => ⟨by simp [Expr.eval, ih], by simp⟩
  case unary => exact fun op e n ih => ⟨by simp [Expr.eval, ih.1], by simp⟩
  case binary => exact fun op l r n ihl ihr => ⟨by simp [Expr.eval, ihl.1, ihr.1], by simp⟩
  case convert => exact fun c e n ih => ⟨by simp [Expr.eval, ih.1], by simp⟩
  case format => exact fun v w n ihv ihw => ⟨by simp [Expr.eval, ihv.1, ihw.1], by simp⟩
  case formatReal =>
    exact fun v w p n ihv ihw ihp => ⟨by simp [Expr.eval, ihv.1, ihw.1, ihp.1], by simp⟩
  case call =>
    intro callee name args n ih
    exact ⟨by simp [Expr.eval, evalArgs_lowered_of ih], by simp⟩
  case var => exact fun v => rfl
  case element => exact fun base index ihb ihi => by simp [Place.resolve, ihb, ihi.1]
  case charAt => exact fun base index ihb ihi => by simp [Place.resolve, ihb, ihi.1]
  case deref => exact fun pointer ih => by simp [Place.resolve, ih.1]
  case value => exact fun e ih => by simp [Arg.pass, ih.1]
  case reference => exact fun p ih => by simp [Arg.pass, ih]

@[simp] theorem Expr.eval_lowered (e : Expr) : e.lowered.eval env caller chain = e.eval env caller chain :=
  (evaluation_lowered.1 e).1

@[simp] theorem Place.resolve_lowered (p : Place) :
    p.lowered.resolve env caller chain = p.resolve env caller chain :=
  evaluation_lowered.2.1 p

@[simp] theorem evalArgs_lowered (args : List Arg) :
    evalArgs env caller chain (args.map Arg.lowered) = evalArgs env caller chain args :=
  evalArgs_lowered_of fun arg _ => evaluation_lowered.2.2 arg

private theorem execAll_lowered {ss : List Stmt}
    (h : ∀ s ∈ ss, s.lowered.exec env caller chain = s.exec env caller chain) :
    execAll env caller chain (ss.map Stmt.lowered) = execAll env caller chain ss := by
  induction ss with
  | nil => rfl
  | cons s ss ih =>
    obtain ⟨hs, hss⟩ := List.forall_mem_cons.mp h
    rw [List.map_cons, execAll, execAll, hs, ih hss]

private theorem execArm_lowered {arms : List Arm} (ordinal : Int)
    (h : ∀ labels s, .mk labels s ∈ arms → s.lowered.exec env caller chain = s.exec env caller chain) :
    execArm env caller chain ordinal (arms.map Arm.lowered) = execArm env caller chain ordinal arms := by
  induction arms with
  | nil => rfl
  | cons arm arms ih =>
    obtain ⟨labels, body⟩ := arm
    have hbody := h labels body List.mem_cons_self
    rw [List.map_cons, Arm.lowered, execArm, execArm, hbody,
      ih fun l b hm => h l b (List.mem_cons_of_mem _ hm)]

/-- What runs around an action depends on no name in the statement. -/
private theorem statement_lowered (s : Stmt) {x y : Run Flow} (h : x = y) :
    Run.statement env chain s.lowered x = Run.statement env chain s y := by
  have hblock : s.lowered.isBlock = s.isBlock := by cases s <;> rfl
  have hannounce : Run.announce env chain s.lowered = Run.announce env chain s := by
    unfold Run.announce
    rw [hblock, Stmt.pos_lowered]
  rw [Run.statement, hannounce, Stmt.pos_lowered, h, Run.statement]

theorem Stmt.exec_lowered (s : Stmt) : s.lowered.exec env caller chain = s.exec env caller chain := by
  induction s using Stmt.induction with
  | block body pos ih =>
    rw [Stmt.lowered, loweredStmts_eq, Stmt.exec, Stmt.exec, execAll_lowered ih]
    rfl
  | assign target value pos =>
    rw [Stmt.lowered, Stmt.exec, Stmt.exec]
    refine statement_lowered (.assign target value pos) ?_
    simp
  | call callee name args pos =>
    rw [Stmt.lowered, Stmt.exec, Stmt.exec]
    refine statement_lowered (.call callee name args pos) ?_
    simp
  | ifThen condition yes no pos ihyes ihno =>
    cases no with
    | none =>
      rw [Stmt.lowered, loweredOption_eq, Option.map_none, Stmt.exec, Stmt.exec]
      refine statement_lowered (.ifThen condition yes none pos) ?_
      simp [ihyes]
    | some no =>
      rw [Stmt.lowered, loweredOption_eq, Option.map_some, Stmt.exec, Stmt.exec]
      refine statement_lowered (.ifThen condition yes (some no) pos) ?_
      simp [ihyes, ihno no rfl]
  | whileDo condition body pos ih =>
    rw [Stmt.lowered, Stmt.exec, Stmt.exec]
    refine statement_lowered (.whileDo condition body pos) ?_
    simp [ih]
  | repeatUntil body condition pos ih =>
    rw [Stmt.lowered, Stmt.exec, Stmt.exec]
    refine statement_lowered (.repeatUntil body condition pos) ?_
    simp [execAll_lowered ih]
  | forDo counter first direction last body pos ih =>
    rw [Stmt.lowered, Stmt.exec, Stmt.exec]
    refine statement_lowered (.forDo counter first direction last body pos) ?_
    simp [ih]
  | caseOf selector arms otherwise pos iharms ihotherwise =>
    cases otherwise with
    | none =>
      rw [Stmt.lowered, loweredOption_eq, Option.map_none, Stmt.exec, Stmt.exec]
      refine statement_lowered (.caseOf selector arms none pos) ?_
      simp [execArm_lowered _ iharms]
    | some s =>
      rw [Stmt.lowered, loweredOption_eq, Option.map_some, Stmt.exec, Stmt.exec]
      refine statement_lowered (.caseOf selector arms (some s) pos) ?_
      simp [execArm_lowered _ iharms, ihotherwise s rfl]
  | breakLoop | continueLoop | exitRoutine | empty => rfl
  | new target pointee pos =>
    rw [Stmt.lowered, Stmt.exec, Stmt.exec]
    refine statement_lowered (.new target pointee pos) ?_
    simp
  | dispose target pos =>
    rw [Stmt.lowered, Stmt.exec, Stmt.exec]
    refine statement_lowered (.dispose target pos) ?_
    simp

end

namespace World

/-- Slots are named in lower case. -/
theorem addSlots_lowered (w : World) (slots : List (String × Ref)) (vs : List Variable) :
    w.addSlots slots (vs.map Variable.lowered) = w.addSlots slots vs := by
  induction vs generalizing w slots with
  | nil => rfl
  | cons v vs ih =>
    have halloc : w.allocVariable v.lowered = w.allocVariable v := rfl
    have hname : lower v.lowered.name = lower v.name := lower_lower v.name
    rw [List.map_cons, addSlots, addSlots, halloc, hname]
    simp only [ih]

end World

namespace UserRoutine

theorem bindParams_lowered (params : List Parameter) (args : List Passed) (w : World) :
    bindParams (params.map Parameter.lowered) args w = bindParams params args w := by
  induction params generalizing args w with
  | nil => rfl
  | cons p params ih =>
    cases args with
    | nil => rfl
    | cons arg args =>
      have hname : lower p.lowered.name = lower p.name := lower_lower p.name
      simp only [List.map_cons, bindParams, hname, ih]

theorem newFrame_lowered (f : UserRoutine) (vars : List Variable) (args : List Passed) (w : World) :
    f.lowered.newFrame (vars.map Variable.lowered) args w = f.newFrame vars args w := by
  have hparams : f.lowered.signature.params = f.signature.params.map Parameter.lowered := rfl
  rw [newFrame, hparams, bindParams_lowered, newFrame]
  simp only [World.addSlots_lowered]
  rfl

end UserRoutine

namespace Program

theorem globalFrames_lowered (p : Program) (scopes : List Nat) (w : World) :
    p.lowered.globalFrames scopes w = p.globalFrames scopes w := by
  induction scopes generalizing w with
  | nil => rfl
  | cons scope scopes ih =>
    have hvars : (p.lowered.arena.scope scope).vars = (p.arena.scope scope).vars.map Variable.lowered := by
      rw [lowered, Arena.scope_lowered, Scope.vars_lowered]
    rw [globalFrames, globalFrames, hvars, World.addSlots_lowered]
    simp only [ih]

theorem stages_lowered (p : Program) : p.lowered.stages = p.stages.map Stmt.lowered := by
  simp [stages, lowered, List.filterMap_map, List.map_filterMap, Function.comp_def, UnitCode.lowered]

end Program

namespace Env

/-- The environment with its program in lower case. -/
def lowered (env : Env) : Env := { env with program := env.program.lowered }

variable (env : Env)

/-- The listener is told the same lines in lower case. -/
theorem abreast_lowered : env.Abreast (Run.Twins true) env.lowered := by
  have halike : AnnounceAlike true env env.lowered := .same rfl
  refine halike.abreast rfl rfl fun id => ?_
  change (env.program.arena.natives.map Routine.lowered)[id]?.map (fun r => (r.name, r.run)) = _
  rw [Array.getElem?_map, Option.map_map]
  rfl

/-- Calls do in lower case what they do. -/
theorem callWithin_lowered (depth : Nat) :
    (env.callWithin depth).Related (Run.Twins true) (env.lowered.callWithin depth) := by
  have hR : Run.Congruence (Run.Twins true) := Run.Pair.congruence
  have hfunction : ∀ id, env.lowered.program.arena.function id = (env.program.arena.function id).lowered :=
    env.program.arena.function_lowered
  have hfail : ∀ f : Fault, f ≠ .cancelled →
      Run.Twins true (Run.fail f : Run (Option Value)) (Run.fail f) := fun f hf => hR.inert (.fail hf)
  induction depth with
  | zero =>
    intro chain id args
    rw [callWithin, callWithin, hfunction, UserRoutine.lowered]
    cases (env.program.arena.function id).body with
    | none => exact hfail _ (by simp)
    | some body => exact hfail _ (by simp)
  | succ depth ih =>
    intro chain id args
    rw [callWithin, callWithin, hfunction]
    generalize env.program.arena.function id = f
    have hbody : f.lowered.body = f.body.map Stmt.lowered := rfl
    have hvars : (env.lowered.program.arena.scope f.lowered.scope).vars =
        (env.program.arena.scope f.scope).vars.map Variable.lowered := by
      rw [lowered, Program.lowered, Arena.scope_lowered, Scope.vars_lowered]
      rfl
    dsimp only
    rw [hbody]
    cases f.body with
    | none => exact hfail _ (by simp)
    | some body =>
      refine env.abreast_lowered.activate hR ?_ rfl rfl fun chain => ?_
      · funext w
        rw [hvars, UserRoutine.newFrame_lowered]
      · rw [Stmt.exec_lowered]
        exact env.abreast_lowered.exec hR ih body

end Env

namespace Program

/-- A program runs in lower case as it does: it ends in the same way and on the same world. -/
theorem run_lowered (p : Program) (settings : Settings) (l : Option Listener) (n : Nat) (w : World) :
    (p.run settings l n w).1 = (p.lowered.run settings l n w).1 ∧
      (p.run settings l n w).2.world = (p.lowered.run settings l n w).2.world := by
  have hscopes : p.lowered.units.map (·.scope) = p.units.map (·.scope) := by
    simp [lowered, UnitCode.lowered]
  have hframes : p.lowered.globalFrames (p.lowered.units.map (·.scope) ++ [p.lowered.main]) w =
      p.globalFrames (p.units.map (·.scope) ++ [p.main]) w := by
    rw [hscopes]
    exact p.globalFrames_lowered _ w
  have hstages : ∀ globals, Run.Twins true
      (p.stages.forM (Env.execTop ⟨p, settings, l, globals, n⟩))
      (p.lowered.stages.forM (Env.execTop ⟨p.lowered, settings, l, globals, n⟩)) := by
    intro globals
    have hR : Run.Congruence (Run.Twins true) := Run.Pair.congruence
    let env : Env := ⟨p, settings, l, globals, n⟩
    have hmap : (p.stages.map Stmt.lowered).forM env.lowered.execTop =
        p.stages.forM fun s => env.lowered.execTop s.lowered := List.forM_map
    rw [stages_lowered]
    refine hmap ▸ hR.forM fun s _ => hR.bind ?_ fun _ => hR.pure ()
    rw [Stmt.exec_lowered]
    exact env.abreast_lowered.exec hR (env.callWithin_lowered _) s
  rcases run_of_pair (.refl true _) hframes hstages with ⟨houtcome, hlevel⟩ | ⟨pos, -, hfalse⟩
  · exact ⟨houtcome, hlevel.world⟩
  · exact hfalse.elim

end Program

end Pascal
