import Pascal.Proofs.Fold.Exec
import Pascal.Proofs.Machine.Outcomes
import Pascal.Proofs.Run.Program

/-!
# Loop signals stay in their loops

A compiled program has `break` and `continue` only inside loops of the same section. A loop takes the
signals of its body, so that neither a loop nor a whole section ends with one.
-/

namespace Pascal

mutual

/-- Whether every `break` and `continue` of a statement stands in a loop, where `inLoop` says whether
there is one around the statement. -/
def Stmt.signalsCaught (inLoop : Bool) : Stmt → Bool
  | .block body _ => allSignalsCaught inLoop body
  | .ifThen _ yes no _ => yes.signalsCaught inLoop && optionSignalsCaught inLoop no
  | .whileDo _ body _ => body.signalsCaught true
  | .repeatUntil body _ _ => allSignalsCaught true body
  | .forDo _ _ _ _ body _ => body.signalsCaught true
  | .caseOf _ arms otherwise _ =>
    armsSignalsCaught inLoop arms && optionSignalsCaught inLoop otherwise
  | .breakLoop _ => inLoop
  | .continueLoop _ => inLoop
  | _ => true

def allSignalsCaught (inLoop : Bool) : List Stmt → Bool
  | [] => true
  | s :: ss => s.signalsCaught inLoop && allSignalsCaught inLoop ss

def armsSignalsCaught (inLoop : Bool) : List Arm → Bool
  | [] => true
  | .mk _ body :: arms => body.signalsCaught inLoop && armsSignalsCaught inLoop arms

def optionSignalsCaught (inLoop : Bool) : Option Stmt → Bool
  | none => true
  | some s => s.signalsCaught inLoop

end

variable {inLoop ranges : Bool}

theorem allSignalsCaught_iff {ss : List Stmt} :
    allSignalsCaught inLoop ss ↔ ∀ s ∈ ss, s.signalsCaught inLoop := by
  induction ss with
  | nil => simp [allSignalsCaught]
  | cons s ss ih => simp [allSignalsCaught, ih]

theorem armsSignalsCaught_iff {arms : List Arm} :
    armsSignalsCaught inLoop arms ↔
      ∀ labels body, .mk labels body ∈ arms → body.signalsCaught inLoop := by
  induction arms with
  | nil => simp [armsSignalsCaught]
  | cons arm arms ih =>
    obtain ⟨labels, body⟩ := arm
    simp only [armsSignalsCaught, Bool.and_eq_true, ih, List.mem_cons, Arm.mk.injEq]
    constructor
    · rintro ⟨h, hs⟩ labels' body' (⟨-, rfl⟩ | hm)
      · exact h
      · exact hs labels' body' hm
    · exact fun hs => ⟨hs labels body (.inl ⟨rfl, rfl⟩), fun l b hm => hs l b (.inr hm)⟩

theorem optionSignalsCaught_iff {o : Option Stmt} :
    optionSignalsCaught inLoop o ↔ ∀ s, o = some s → s.signalsCaught inLoop := by
  cases o <;> simp [optionSignalsCaught]

/-- The reader lets signals stand where a loop is around them. -/
theorem Stmt.Built.signalsCaught {ctx : Context} {s : Stmt} (h : s.Built ranges ctx) :
    s.signalsCaught ctx.inLoop := by
  induction h with
  | block _ ih => exact allSignalsCaught_iff.mpr ih
  | ifThen _ _ _ _ ihyes ihno =>
    simp only [Stmt.signalsCaught, Bool.and_eq_true]
    exact ⟨ihyes, optionSignalsCaught_iff.mpr ihno⟩
  | whileDo _ _ _ ih => exact ih
  | repeatUntil _ _ _ ih => exact allSignalsCaught_iff.mpr ih
  | forDo _ _ _ _ _ _ _ _ ih => exact ih
  | caseOf _ _ _ _ iharms ihotherwise =>
    simp only [Stmt.signalsCaught, Bool.and_eq_true]
    exact ⟨armsSignalsCaught_iff.mpr iharms, optionSignalsCaught_iff.mpr ihotherwise⟩
  | breakLoop h | continueLoop h => exact h
  | _ => rfl

/-- Folding moves no signal out of its loop. -/
theorem Stmt.signalsCaught_fold {s : Stmt} (h : s.signalsCaught inLoop) :
    s.fold.signalsCaught inLoop := by
  induction s using Stmt.induction generalizing inLoop with
  | block body pos ih =>
    rw [Stmt.fold, foldStmts_eq]
    simp only [Stmt.signalsCaught, allSignalsCaught_iff, List.forall_mem_map] at h ⊢
    exact fun s hm => ih s hm (h s hm)
  | ifThen condition yes no pos ihyes ihno =>
    simp only [Stmt.signalsCaught, Bool.and_eq_true, optionSignalsCaught_iff] at h
    unfold Stmt.fold
    dsimp only
    split
    · exact ihyes h.1
    · exact ihno _ rfl (h.2 _ rfl)
    · rfl
    · simp only [Stmt.signalsCaught, optionSignalsCaught, Bool.and_eq_true]
      exact ⟨ihyes h.1, ihno _ rfl (h.2 _ rfl)⟩
    · simp only [Stmt.signalsCaught, optionSignalsCaught, Bool.and_true]
      exact ihyes h.1
  | whileDo condition body pos ih =>
    unfold Stmt.fold
    dsimp only
    split
    · rfl
    · exact ih h
  | repeatUntil body condition pos ih =>
    rw [Stmt.fold, foldStmts_eq]
    simp only [Stmt.signalsCaught, allSignalsCaught_iff, List.forall_mem_map] at h ⊢
    exact fun s hm => ih s hm (h s hm)
  | forDo counter first direction last body pos ih =>
    rw [Stmt.fold]
    split
    · rfl
    · exact ih h
  | caseOf selector arms otherwise pos iharms ihotherwise =>
    rw [Stmt.fold, foldArms_eq, foldOption_eq]
    simp only [Stmt.signalsCaught, Bool.and_eq_true, armsSignalsCaught_iff,
      optionSignalsCaught_iff] at h ⊢
    refine ⟨fun labels body hm => ?_, fun s hs => ?_⟩
    · obtain ⟨⟨labels', body'⟩, hmem, heq⟩ := List.mem_map.mp hm
      cases heq
      exact iharms labels body' hmem (h.1 labels body' hmem)
    · obtain ⟨s, hsome, rfl⟩ := Option.map_eq_some_iff.mp hs
      exact ihotherwise s hsome (h.2 s hsome)
  | breakLoop | continueLoop => exact h
  | _ => rfl

namespace Run

variable {α β : Type} {P : α → Prop} {Q : β → Prop}

/-- Whatever a computation ends with has a property. -/
def Returns (P : α → Prop) (x : Run α) : Prop := ∀ m a m', x m = .ok a m' → P a

namespace Returns

theorem trivial (x : Run α) : Returns (fun _ => True) x := fun _ _ _ _ => True.intro

theorem mono {P' : α → Prop} {x : Run α} (h : Returns P x) (hP : ∀ a, P a → P' a) :
    Returns P' x := fun m a m' he => hP a (h m a m' he)

theorem pure {a : α} (h : P a) : Returns P (Pure.pure a : Run α) := by
  rintro m b m' ⟨⟩
  exact h

theorem throw (e : Stop) : Returns P (throw e : Run α) := by
  rintro m a m' ⟨⟩

theorem bind {x : Run α} {f : α → Run β} (hx : Returns P x) (hf : ∀ a, P a → Returns Q (f a)) :
    Returns Q (x >>= f) := by
  intro m b m' h
  obtain ⟨a, m₁, hr, h⟩ := EStateM.bind_eq_ok_iff.mp h
  exact hf a (hx m a m₁ hr) m₁ b m' h

/-- What comes last decides what is returned. -/
theorem last {x : Run α} {f : α → Run β} (hf : ∀ a, Returns Q (f a)) : Returns Q (x >>= f) :=
  (trivial x).bind fun a _ => hf a

theorem located {x : Run α} (h : Returns P x) (pos : Position) : Returns P (located pos x) := by
  intro m a m' he
  unfold Run.located at he
  split at he
  · cases he
  · exact h m a m' he

end Returns

end Run

namespace Flow

/-- Neither `break` nor `continue`. -/
def Settled (flow : Flow) : Prop := flow = .normal ∨ flow = .exitRoutine

end Flow

namespace Run.Returns

variable {condition : Run Bool} {check : Run Unit} {body : Run Flow}

/-- What follows a round of a loop, whatever signal the round ended with. -/
private theorem round {next : Run Flow} (h : Returns Flow.Settled next) (flow : Flow) :
    Returns Flow.Settled (match flow with
      | .breakLoop => Pure.pure .normal
      | .exitRoutine => Pure.pure .exitRoutine
      | .normal | .continueLoop => next) := by
  cases flow with
  | breakLoop => exact pure (.inl rfl)
  | exitRoutine => exact pure (.inr rfl)
  | normal | continueLoop => exact h

theorem whileRounds (n : Nat) :
    Returns Flow.Settled (Run.whileRounds condition check body n) := by
  induction n with
  | zero => exact throw _
  | succ n ih =>
    refine last fun holds => ?_
    split
    · exact last fun _ => last fun flow => round ih flow
    · exact pure (.inl rfl)

theorem repeatRounds (n : Nat) :
    Returns Flow.Settled (Run.repeatRounds condition check body n) := by
  induction n with
  | zero => exact throw _
  | succ n ih =>
    refine last fun _ => last fun flow => round (last fun holds => ?_) flow
    split
    · exact pure (.inl rfl)
    · exact ih

theorem forRounds {step : Int} {setCounter : Int → Run Unit} (n : Nat) (current : Int) :
    Returns Flow.Settled (Run.forRounds step setCounter check body n current) := by
  induction n generalizing current with
  | zero => exact pure (.inl rfl)
  | succ n ih => exact last fun _ => last fun _ => last fun flow => round (ih _) flow

end Run.Returns

namespace Stmt

variable {env : Env} {caller : Caller} {chain : Chain}

def isLoop : Stmt → Bool
  | .whileDo _ _ _ | .repeatUntil _ _ _ | .forDo _ _ _ _ _ _ => true
  | _ => false

/-- What a statement ends with is decided between its announcement and the release of files. -/
private theorem returns_statement {s : Stmt} {P : Flow → Prop} {x : Run Flow}
    (hs : s.exec env caller chain = Run.statement env chain s x) (h : Run.Returns P x) :
    Run.Returns P (s.exec env caller chain) := by
  rw [hs]
  exact .last fun _ => .last fun _ => (h.located s.pos).bind fun flow hflow => .last fun _ =>
    .pure hflow

/-- A loop ends with no signal, whatever its body does. -/
theorem exec_loop {s : Stmt} (h : s.isLoop) : (s.exec env caller chain).Returns Flow.Settled := by
  cases s with
  | whileDo condition body pos => exact returns_statement rfl (.whileRounds _)
  | repeatUntil body condition pos => exact returns_statement rfl (.repeatRounds _)
  | forDo counter first direction last body pos =>
    exact returns_statement rfl (.last fun _ => .last fun _ => .last fun _ => .last fun _ =>
      .last fun _ => .last fun _ => .forRounds _ _)
  | _ => cases h

private theorem returns_normal :
    (pure .normal : Run Flow).Returns fun flow => inLoop = false → flow.Settled :=
  .pure fun _ => .inl rfl

private theorem returns_execAll {ss : List Stmt} (h : ∀ s ∈ ss, (s.exec env caller chain).Returns
    fun flow => inLoop = false → flow.Settled) :
    (execAll env caller chain ss).Returns fun flow => inLoop = false → flow.Settled := by
  induction ss with
  | nil => exact .pure fun _ => .inl rfl
  | cons s ss ih =>
    obtain ⟨hs, hss⟩ := List.forall_mem_cons.mp h
    refine hs.bind fun flow hflow => ?_
    cases flow with
    | normal => exact ih hss
    | _ => exact .pure hflow

private theorem returns_execArm {arms : List Arm} (ordinal : Int)
    (h : ∀ labels body, .mk labels body ∈ arms → (body.exec env caller chain).Returns
      fun flow => inLoop = false → flow.Settled) :
    (execArm env caller chain ordinal arms).Returns
      fun found => ∀ flow, found = some flow → inLoop = false → flow.Settled := by
  induction arms with
  | nil => exact .pure fun flow hflow => by cases hflow
  | cons arm arms ih =>
    obtain ⟨labels, body⟩ := arm
    rw [execArm]
    split
    · refine (h labels body List.mem_cons_self).bind fun flow hflow => .pure ?_
      rintro flow' ⟨⟩
      exact hflow
    · exact ih fun l b hm => h l b (List.mem_cons_of_mem _ hm)

/-- A statement ends with a signal only where a loop is around it. -/
theorem exec_signalsCaught {s : Stmt} (h : s.signalsCaught inLoop) :
    (s.exec env caller chain).Returns fun flow => inLoop = false → flow.Settled := by
  induction s using Stmt.induction generalizing inLoop with
  | block body pos ih =>
    exact returns_statement rfl (returns_execAll fun s hm => ih s hm (allSignalsCaught_iff.mp h s hm))
  | ifThen condition yes no pos ihyes ihno =>
    simp only [signalsCaught, Bool.and_eq_true, optionSignalsCaught_iff] at h
    cases no with
    | none =>
      refine returns_statement rfl (.last fun holds => ?_)
      split
      · exact ihyes h.1
      · exact returns_normal
    | some no =>
      refine returns_statement rfl (.last fun holds => ?_)
      split
      · exact ihyes h.1
      · exact ihno no rfl (h.2 no rfl)
  | whileDo | repeatUntil | forDo => exact (exec_loop rfl).mono fun flow hflow _ => hflow
  | caseOf selector arms otherwise pos iharms ihotherwise =>
    simp only [signalsCaught, Bool.and_eq_true, armsSignalsCaught_iff, optionSignalsCaught_iff] at h
    have harms := fun ordinal => returns_execArm ordinal
      fun labels body hm => iharms labels body hm (h.1 labels body hm)
    cases otherwise with
    | none =>
      refine returns_statement rfl (.last fun _ => .last fun ordinal => (harms ordinal).bind ?_)
      intro found hfound
      cases found with
      | none => exact returns_normal
      | some flow => exact .pure (hfound flow rfl)
    | some otherwise =>
      refine returns_statement rfl (.last fun _ => .last fun ordinal => (harms ordinal).bind ?_)
      intro found hfound
      cases found with
      | none => exact ihotherwise otherwise rfl (h.2 otherwise rfl)
      | some flow => exact .pure (hfound flow rfl)
  | breakLoop | continueLoop =>
    subst h
    exact returns_statement rfl (.pure fun hfalse => by cases hfalse)
  | exitRoutine => exact returns_statement rfl (.pure fun _ => .inr rfl)
  | assign => exact returns_statement rfl (.last fun _ => .last fun _ => .last fun _ => returns_normal)
  | call => exact returns_statement rfl (.last fun _ => .last fun _ => returns_normal)
  | new =>
    exact returns_statement rfl (.last fun _ => .last fun _ => .last fun _ => .last fun _ => returns_normal)
  | dispose target pos =>
    refine returns_statement rfl (.last fun r => .last fun v => ?_)
    split
    · exact .throw _
    · exact .last fun _ => returns_normal
  | empty => exact returns_statement rfl returns_normal

end Stmt

namespace Program

/-- The sections of a program: the bodies of its routines, its main block, and what its units do at the
start and at the end. -/
def Section (p : Program) (s : Stmt) : Prop :=
  s = p.body ∨ (∃ u ∈ p.units, u.initialization = some s ∨ u.finalization = some s) ∨
    ∃ id, (p.arena.function id).body = some s

theorem Elaborated.signalsCaught {libraries : List Library} {p : Program}
    (h : p.Elaborated ranges libraries) {s : Stmt} (hs : p.Section s) : s.signalsCaught false := by
  have hread : ∀ {scope : Nat}, s.Read ranges libraries p.arena scope → s.signalsCaught false :=
    fun ⟨_, _, _, _, hbuilt⟩ => hbuilt.signalsCaught
  rcases hs with rfl | ⟨u, hu, hs⟩ | ⟨id, hs⟩
  · exact hread h.body
  · exact hread ((h.units u hu).2.2 s hs)
  · exact hread (h.arena.body hs).2

/-- The sections of the folded program are those of the program, folded. -/
theorem section_fold {p : Program} {s : Stmt} (h : p.fold.Section s) :
    ∃ t, p.Section t ∧ t.fold = s := by
  rcases h with rfl | ⟨u, hu, hs⟩ | ⟨id, hs⟩
  · exact ⟨p.body, .inl rfl, rfl⟩
  · obtain ⟨v, hv, rfl⟩ := List.mem_map.mp hu
    rcases hs with hs | hs
    · obtain ⟨t, ht, rfl⟩ := Option.map_eq_some_iff.mp hs
      exact ⟨t, .inr (.inl ⟨v, hv, .inl ht⟩), rfl⟩
    · obtain ⟨t, ht, rfl⟩ := Option.map_eq_some_iff.mp hs
      exact ⟨t, .inr (.inl ⟨v, hv, .inr ht⟩), rfl⟩
  · rw [(p.heading_fold id).2] at hs
    obtain ⟨t, ht, rfl⟩ := Option.map_eq_some_iff.mp hs
    exact ⟨t, .inr (.inr ⟨id, ht⟩), rfl⟩

end Program

namespace Toolchain

/-- Signals stay in the loops of their section. In a compiled program every `break` and `continue`
stands in a loop of the section that it belongs to. So whatever state a section runs in, it ends with
none of these signals where it ends without an error, and neither does any loop. -/
theorem compile_signalsCaught {t : Toolchain} {unit source : String} {p : Program}
    (h : t.compile unit source = .ok p) :
    (∀ s, p.Section s → s.signalsCaught false ∧
      ∀ env caller chain, (s.exec env caller chain).Returns Flow.Settled) ∧
    ∀ s : Stmt, s.isLoop → ∀ env caller chain, (s.exec env caller chain).Returns Flow.Settled := by
  obtain ⟨q, hq, rfl⟩ := compile_eq_ok h
  have hbuild : q.Elaborated true t.libraries := compilePlain_elaborated hq (by simp)
  have hcaught : ∀ s, (if t.folds then q.fold else q).Section s → s.signalsCaught false := by
    intro s hs
    split at hs
    · obtain ⟨u, hu, rfl⟩ := Program.section_fold hs
      exact Stmt.signalsCaught_fold (hbuild.signalsCaught hu)
    · exact hbuild.signalsCaught hs
  refine ⟨fun s hs => ⟨hcaught s hs, fun env caller chain => ?_⟩, fun s hs env caller chain => ?_⟩
  · exact (Stmt.exec_signalsCaught (hcaught s hs)).mono fun flow hflow => hflow rfl
  · exact Stmt.exec_loop hs

/-- A routine whose loop is left by `break`, called in a loop that goes on with `continue`. -/
theorem compile_signalsCaught_nested : ∃ p : Program,
    standard.compile "test" ("var i: integer; procedure p; begin repeat if i>1 then break " ++
      "until false end; begin for i:=1 to 3 do begin p; continue end end.") = .ok p ∧
    p.body.signalsCaught false ∧
    ∀ env caller chain, (p.body.exec env caller chain).Returns Flow.Settled := by
  obtain ⟨p, hp⟩ := exists_of_isOk (show (standard.compile "test"
    ("var i: integer; procedure p; begin repeat if i>1 then break " ++
      "until false end; begin for i:=1 to 3 do begin p; continue end end.")).isOk = true by
    decide +kernel)
  exact ⟨p, hp, (compile_signalsCaught hp).1 p.body (.inl rfl)⟩

end Toolchain

end Pascal
