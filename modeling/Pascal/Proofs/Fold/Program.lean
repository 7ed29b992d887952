import Pascal.Proofs.Fold.Ends
import Pascal.Proofs.Fold.Exec
import Pascal.Proofs.Program.Natives
import Pascal.Proofs.Run.Program
import Pascal.Proofs.Typing.All
import Pascal.Proofs.Typing.Stmt

/-!
# Folding keeps what a program does

A run of the folded program without a listener does what the run of the program does, as long as it is
not cancelled: it ends in the same way, and it leaves the same machine behind, with what was shown and
all files.
-/

namespace Pascal

variable {d : Discipline} {env : Env}

namespace Program

/-- Every statement that a run goes through is one of the main program or of a unit. -/
theorem Typed.stages {p : Program} (h : p.Typed d) : ∀ s ∈ p.stages, s.Typed d p.arena := by
  intro s hs
  simp only [Program.stages, List.mem_append, List.mem_cons, List.mem_filterMap,
    List.mem_reverse] at hs
  rcases hs with ⟨u, hu, hs⟩ | rfl | ⟨u, hu, hs⟩
  · exact h.units u hu s (.inl hs)
  · exact h.body
  · exact h.units u hu s (.inr hs)

end Program

namespace Env

variable (hq : env.Quiet) (ht : env.program.Typed d)
include hq ht

/-- A routine of the folded program does what the routine does. -/
theorem callWithin_agrees (depth : Nat) :
    Caller.Agrees (env.folded.callWithin depth) (env.callWithin depth) := by
  induction depth with
  | zero =>
    intro chain id args
    obtain ⟨-, hbody⟩ := env.program.heading_fold id
    unfold callWithin
    simp only [show env.folded.program = env.program.fold from rfl, hbody]
    cases (env.program.arena.function id).body <;> exact .fail _
  | succ depth ih =>
    intro chain id args
    obtain ⟨hheading, hbody⟩ := env.program.heading_fold id
    have hsignature := congrArg (·.signature) hheading
    have hscope := congrArg (·.scope) hheading
    have hdeclared := congrArg (·.declaredIn) hheading
    unfold callWithin
    simp only [show env.folded.program = env.program.fold from rfl, hbody]
    cases hs : (env.program.arena.function id).body with
    | none => exact .fail _
    | some s =>
      have hexec : ∀ chain, Run.Agrees (s.fold.exec env.folded (env.folded.callWithin depth) chain)
          (s.exec env (env.callWithin depth) chain) :=
        fun chain => (ht.functions id s hs).exec_agrees hq ih
      have hframe := congrArg UserRoutine.newFrame hheading
      have houter := congrArg UserRoutine.outerFrames hheading
      change (env.program.fold.arena.function id).newFrame = _ at hframe
      change (env.program.fold.arena.function id).outerFrames = _ at houter
      simp only [UserRoutine.heading] at hsignature hscope
      simp only [Option.map_some, activate, hsignature, hscope, hframe, houter]
      refine (Run.Agrees.inert (.onWorld (UserRoutine.newFrame_inert _ _ args))).bind fun frame => ?_
      · refine ((hexec _).activating frame).bind fun _ => ?_
        have hrelease : ∀ result : Option Value, Run.Agrees
            (do Run.releaseForgotten env.folded result.toList; return result)
            (do Run.releaseForgotten env result.toList; return result) := by
          intro result
          refine Run.Agrees.bind ?_ fun _ => .pure _
          refine Run.Agrees.holding (x := fun m => .ok () (m.releaseForgotten env))
            (y := fun m => .ok () (m.releaseForgotten env)) (fun m hm => ⟨rfl, ?_⟩) _
          exact (Machine.keeps_releaseForgotten env m).cancelled.trans hm
        split
        · exact hrelease none
        · split
          · exact (Run.Agrees.fail _).bind hrelease
          · next r _ =>
            exact ((Run.Agrees.inert (.get r)).bind fun v => .pure (some v)).bind hrelease

/-- What runs of the folded program go through does what it does in runs of the program. -/
theorem stages_agree : Run.Agrees (env.folded.program.stages.forM env.folded.execTop)
    (env.program.stages.forM env.execTop) := by
  have hmap : ∀ ss : List Stmt, (∀ s ∈ ss, s.Typed d env.program.arena) →
      Run.Agrees ((ss.map Stmt.fold).forM env.folded.execTop) (ss.forM env.execTop) := by
    intro ss hss
    induction ss with
    | nil => exact .pure _
    | cons s ss ih =>
      obtain ⟨hs, hss⟩ := List.forall_mem_cons.mp hss
      refine Run.Agrees.bind ?_ fun _ => ih hss
      exact (hs.exec_agrees hq (callWithin_agrees hq ht _)).bind fun _ => .pure _
  rw [show env.folded.program.stages = _ from env.program.stages_fold]
  exact hmap _ ht.stages

end Env

namespace Program

/-- With any number of rounds but none, the folded program runs like the program. -/
theorem Typed.run_fold {p : Program} (ht : p.Typed d)
    (hnatives : ∀ (id : Nat) r, p.arena.natives[id]? = some r → r.Quiet) (settings : Settings)
    (n : Nat) (w : World) (hw : w.cancelled = false) :
    p.fold.run settings none (n + 1) w = p.run settings none (n + 1) w := by
  have hscopes : p.fold.units.map (·.scope) ++ [p.fold.main] = p.units.map (·.scope) ++ [p.main] := by
    simp [fold, List.map_map, Function.comp_def]
  unfold run
  rw [hscopes, globalFrames_fold]
  dsimp only
  generalize hg : p.globalFrames (p.units.map (·.scope) ++ [p.main]) w = g
  obtain ⟨globals, world⟩ := g
  have hworld : world.cancelled = false := by
    have hc := ((p.globalFrames_inert (p.units.map (·.scope) ++ [p.main])).keeps w).2
    rw [hg] at hc
    exact hc.trans hw
  let env : Env := { program := p, settings, listener := none, globals, rounds := n + 1 }
  have hq : env.Quiet := ⟨rfl, Nat.succ_pos n, hnatives⟩
  have hagrees : p.fold.stages.forM (Env.execTop ⟨p.fold, settings, none, globals, n + 1⟩) { world } =
      p.stages.forM (Env.execTop ⟨p, settings, none, globals, n + 1⟩) { world } :=
    (Env.stages_agree (d := d) hq ht { world } hworld).1
  dsimp only
  rw [hagrees]

/-- A run without a listener ends in a certain way if it does so however many rounds its loops are
granted from some number on. -/
def Ends (p : Program) (settings : Settings) (w : World) (r : Outcome × Machine) : Prop :=
  r.1 ≠ .exhausted ∧ ∃ n, ∀ m ≥ n, p.run settings none m w = r

end Program

open Classical in
/-- All expressions in a statement have a property. -/
def Stmt.Every (P : Expr → Prop) (s : Stmt) : Prop :=
  s.all (fun e => decide (P e)) (fun _ => true) (fun _ => true)

/-- All expressions in the statements of a program have a property. -/
structure Program.Every (P : Expr → Prop) (p : Program) : Prop where
  body : p.body.Every P
  units : ∀ u ∈ p.units, ∀ s, u.initialization = some s ∨ u.finalization = some s → s.Every P
  functions : ∀ id s, (p.arena.function id).body = some s → s.Every P

/-- Evaluating the folded expression is evaluating the expression, unless folding breaks off. -/
def Expr.Folds (e : Expr) : Prop :=
  ∀ e', e.fold? = some e' → ∀ env caller chain, e'.eval env caller chain = e.eval env caller chain

theorem Expr.Typed.folds {a : Arena} {e : Expr} (h : e.Typed d a) : e.Folds := by
  intro e' he env caller chain
  obtain ⟨-, rfl⟩ := Expr.fold?_eq_some.mp he
  exact h.eval_fold

theorem Program.Typed.folds {p : Program} (h : p.Typed d) : p.Every Expr.Folds := by
  have hevery : ∀ s : Stmt, s.Typed d p.arena → s.Every Expr.Folds := by
    intro s hs
    classical
    refine hs.all (fun e he => ?_) (fun low high n => ?_) (fun _ _ _ => rfl) fun _ _ => rfl
    · exact decide_eq_true he.folds
    · refine decide_eq_true fun e' he' env caller chain => ?_
      obtain ⟨-, rfl⟩ := Expr.fold?_eq_some.mp he'
      rfl
  exact ⟨hevery _ h.body, fun u hu s hs => hevery s (h.units u hu s hs),
    fun id s hs => hevery s (h.functions id s hs)⟩

/-- A library that is well-typed and whose routines do not cancel the run. -/
structure Library.Regular (l : Library) : Prop where
  fits : l.Fits {}
  quiet : ∀ r ∈ l.routines, r.Quiet

theorem Library.standard_regular : ∀ l ∈ Library.standard, l.Regular :=
  fun l hl => ⟨standard_fits l hl, standard_quiet l hl⟩

/-- Where folding a program does not break off, it keeps what the program does. With the same rounds for
its loops the folded program ends like the program and leaves the same machine behind, so that one of
them ends if the other one does. On any machine, folding an expression of the program changes neither
the outcome of its evaluation nor the machine that is left behind; nor does folding one that is read on
the way. -/
theorem Toolchain.fold_preserves {t : Toolchain} {unit source : String} {p : Program}
    (h : t.compilePlain unit source = .ok p) (hl : ∀ l ∈ t.libraries, l.Regular) :
    (∀ p', p.fold? = some p' →
      (∀ settings n (w : World), w.cancelled = false →
        p'.run settings none (n + 1) w = p.run settings none (n + 1) w) ∧
      ∀ settings (w : World) r, w.cancelled = false →
        (p'.Ends settings w r ↔ p.Ends settings w r)) ∧
    p.Every Expr.Folds ∧
    ∀ (ctx : Context) (e : Expr), Arena.Leads true t.libraries {} ctx.arena → e.Built true ctx →
      e.Folds := by
  have hfits : ∀ l ∈ t.libraries, l.Fits {} := fun l hl' => (hl l hl').fits
  have hranges : Discipline.takesRanges {} = false → true = false := nofun
  have helab : p.Elaborated true t.libraries := compilePlain_elaborated h (by simp)
  have ht : p.Typed {} := helab.typed hranges hfits (p.closes_of_kinds rfl)
  have hnatives : ∀ (id : Nat) r, p.arena.natives[id]? = some r → r.Quiet := by
    intro id r hr
    obtain ⟨l, hl', hr⟩ := helab.arena.native_mem hr
    exact (hl l hl').quiet r hr
  have hrun := ht.run_fold hnatives
  refine ⟨fun p' hp' => ?_, ht.folds, fun ctx e ha he => ?_⟩
  · obtain ⟨-, rfl⟩ := Program.fold?_eq_some.mp hp'
    have hsame : ∀ settings (w : World), w.cancelled = false → ∀ m ≥ 1,
        p.fold.run settings none m w = p.run settings none m w := by
      intro settings w hw m hm
      obtain ⟨k, rfl⟩ := Nat.exists_eq_add_of_le' hm
      exact hrun settings k w hw
    refine ⟨hrun, fun settings w r hw => ?_⟩
    constructor
    · rintro ⟨hr, n, hn⟩
      exact ⟨hr, n + 1, fun m hm => (hsame settings w hw m (by omega)) ▸ hn m (by omega)⟩
    · rintro ⟨hr, n, hn⟩
      exact ⟨hr, n + 1, fun m hm => (hsame settings w hw m (by omega)).trans (hn m (by omega))⟩
  · have hs : ctx.arena.Sound {} := ha.sound hranges hfits (by simp [Arena.Closed])
    have hexact := he.exact hs (ha.nested .empty) (.refl _) hranges (by simp [Expr.Closes])
    exact hexact.typed.folds

/-- The hypotheses hold of a program with a constant condition. -/
theorem Toolchain.fold_preserves_condition : ∃ p p' : Program,
    Toolchain.standard.compilePlain "test" "begin if 1+1=2 then write(2*3) end." = .ok p ∧
    p.fold? = some p' ∧
    p'.run {} none 1 { console := .ofInput "" } = p.run {} none 1 { console := .ofInput "" } := by
  have hok : (Toolchain.standard.compilePlain "test"
      "begin if 1+1=2 then write(2*3) end.").toOption.any Program.foldEnds := by decide +kernel
  obtain ⟨p, hp, hends⟩ := exists_ok_of_any hok
  have hfold := Program.fold?_eq_some.mpr ⟨hends, rfl⟩
  have hkeeps := (Toolchain.fold_preserves hp Library.standard_regular).1 _ hfold
  exact ⟨p, _, hp, hfold, hkeeps.1 {} 0 _ rfl⟩

/-- A column beyond 16 bits breaks folding off, also where a run never gets to it. -/
theorem Toolchain.fold_preserves_column : ∃ p : Program,
    Toolchain.standard.compilePlain "test"
      "var b: boolean;\nbegin\n  if b then write('a':65536)\nend.\n" = .ok p ∧
    p.fold? = none ∧ (p.run {} none 1 { console := .ofInput "" }).1 = .completed := by
  have hruns : (Toolchain.standard.compilePlain "test"
      "var b: boolean;\nbegin\n  if b then write('a':65536)\nend.\n").toOption.any fun p =>
      p.fold?.isNone && (p.run {} none 1 { console := .ofInput "" }).1 == .completed := by
    decide +kernel
  obtain ⟨p, hp, hruns⟩ := exists_ok_of_any hruns
  obtain ⟨hbreaks, hcompleted⟩ := Bool.and_eq_true_iff.mp hruns
  exact ⟨p, hp, Option.isNone_iff_eq_none.mp hbreaks, eq_of_beq hcompleted⟩

end Pascal
