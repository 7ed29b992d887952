import Pascal.Proofs.Files.Calls
import Pascal.Proofs.Run.Parts
import Pascal.Proofs.Sound.Exec

/-!
# Runs that copy no texts

Where no text is assigned and none is passed by value to a routine of the program, texts stay in the cells
that were made for them. Most of what a call does brings up no file at all. Assignments, the counters of
loops, new variables and new activations are looked at one by one; what they store is known from its type.
-/

namespace Pascal

/-! ## Programs -/

/-- Whether a statement assigns no text itself. -/
def Stmt.assignsNoText : Stmt → Bool
  | .assign _ value _ => value.ty.isTextless
  | _ => true

/-- Whether no text is assigned in a statement. -/
def Stmt.keepsTexts (s : Stmt) : Bool := s.all (fun _ => true) (fun _ => true) assignsNoText

/-- Whether no text is passed by value for a parameter. -/
def Parameter.keepsTexts (p : Parameter) : Bool := p.mode == .var || p.ty.isTextless

/-- Whether a variable is declared with no text file. -/
def Variable.keepsTexts (v : Variable) : Bool := v.initial.all (·.files.isEmpty)

/-- Whether no text is copied in a program: none is assigned, and none is passed by value to a routine of
the program. -/
def Program.keepsTexts (p : Program) : Bool :=
  (p.arena.scopes.toList.all fun s => s.vars.all Variable.keepsTexts) &&
    (p.arena.functions.toList.all fun f => f.signature.params.all Parameter.keepsTexts) &&
    (p.stages ++ p.arena.functions.toList.filterMap (·.body)).all Stmt.keepsTexts

/-- What is declared copies no text, and neither do library routines. -/
structure Arena.KeepsTexts (a : Arena) : Prop where
  vars : ∀ scope, ∀ v ∈ (a.scope scope).vars, ∀ x, v.initial = some x → x.files = []
  params : ∀ id, ∀ q ∈ (a.function id).signature.params, q.keepsTexts
  bodies : ∀ id s, (a.function id).body = some s → s.keepsTexts
  natives : ∀ (id : Nat) r, a.natives[id]? = some r → r.Spares

namespace Program

variable {p : Program}

theorem keepsTexts_stages (h : p.keepsTexts) : ∀ s ∈ p.stages, s.keepsTexts := by
  simp only [keepsTexts, Bool.and_eq_true, List.all_eq_true, List.mem_append] at h
  exact fun s hs => h.2 s (.inl hs)

theorem keepsTexts_arena (h : p.keepsTexts)
    (hn : ∀ (id : Nat) r, p.arena.natives[id]? = some r → r.Spares) : p.arena.KeepsTexts := by
  simp only [keepsTexts, Bool.and_eq_true, List.all_eq_true, List.mem_append, List.mem_filterMap,
    Array.mem_toList_iff] at h
  obtain ⟨⟨hvars, hparams⟩, hbodies⟩ := h
  refine ⟨fun scope v hv x hx => ?_, fun id q hq => ?_, fun id s hs => ?_, hn⟩
  · cases hscope : p.arena.scopes[scope]? with
    | none => simp [Arena.scope, hscope, default, Scope.vars] at hv
    | some sc =>
      rw [Arena.scope, hscope] at hv
      have hkeeps := hvars sc (Array.mem_of_getElem? hscope) v hv
      simpa [Variable.keepsTexts, hx] using hkeeps
  · cases hfunction : p.arena.functions[id]? with
    | none => simp [Arena.function, hfunction, default] at hq
    | some f =>
      rw [Arena.function, hfunction] at hq
      exact hparams f (Array.mem_of_getElem? hfunction) q hq
  · cases hfunction : p.arena.functions[id]? with
    | none => simp [Arena.function, hfunction, default] at hs
    | some f =>
      rw [Arena.function, hfunction] at hs
      exact hbodies s (.inr ⟨f, Array.mem_of_getElem? hfunction, hs⟩)

end Program

/-- Code that assigns no text. -/
def Code.KeepsTexts {α : Type} (c : Code α) : Prop :=
  c.All (fun _ => true) (fun _ => true) Stmt.assignsNoText fun _ => True

/-! ## What brings up no file -/

namespace Run

variable {α : Type}

/-- A computation brings up no file, neither anew nor in storage that did not hold it. -/
def Spares (x : Run α) : Prop := ∀ m : Machine, m.world.Spares (after (x m)).world

namespace Spares

theorem pure (a : α) : Spares (Pure.pure a : Run α) := fun m => .refl m.world

theorem throw (e : Stop) : Spares (throw e : Run α) := fun m => .refl m.world

theorem fail (f : Fault) : Spares (Run.fail f : Run α) := throw _

theorem liftFault (r : Except Fault α) : Spares (Run.liftFault r) := by
  cases r
  · exact fail _
  · exact pure _

theorem map {β : Type} {x : Run α} (h : Spares x) (f : α → β) : Spares (f <$> x) := by
  intro m
  have hx := h m
  simp only [Functor.map, EStateM.map]
  cases hr : x m <;> rw [hr] at hx <;> exact hx

theorem get (r : Ref) : Spares (Run.get r) := by
  intro m
  unfold Run.get
  split <;> exact .refl m.world

theorem set (r : Ref) {v : Value} (hv : v.files = []) : Spares (Run.set r v) := by
  intro m
  unfold Run.set
  split
  · next h => exact .revised (fun _ _ hnew => Except.ok.inj hnew ▸ hv) h
  · exact .refl m.world

theorem format (v width : Value) (precision : Option Value) : Spares (Run.format v width precision) := by
  intro m
  unfold Run.format
  split <;> exact .refl m.world

theorem ofHost (name : String) {x : Host α} (hx : x.Within World.Spares) : Spares (Run.ofHost name x) := by
  intro m
  have h := hx m.world
  unfold Run.ofHost
  split <;> next hr => rw [hr] at h; exact h

theorem checkCancelled : Spares Run.checkCancelled := by
  intro m
  unfold Run.checkCancelled
  split <;> exact .refl m.world

theorem announce (env : Env) (chain : Chain) (s : Stmt) : Spares (Run.announce env chain s) := by
  intro m
  change m.world.Spares (if s.isBlock then m else m.announce env chain s.pos).world
  split
  · exact .refl m.world
  · unfold Machine.announce Machine.reportLine Machine.addReport
    split
    · exact .refl m.world
    · dsimp only
      split <;> exact .of_store rfl rfl

theorem releaseForgotten (env : Env) (vs : List Value) : Spares (Run.releaseForgotten env vs) := by
  have hfold (ns : List Nat) (m : Machine) : m.world.Spares (ns.foldl Machine.letGo m).world := by
    induction ns generalizing m with
    | nil => exact .refl m.world
    | cons n ns ih => exact (m.world.spares_setFile n _ _).trans (ih (m.letGo n))
  intro m
  change m.world.Spares (Machine.releaseForgotten env { m with held := vs ++ m.held }).world
  unfold Machine.releaseForgotten
  split
  · dsimp only
    split
    · exact .refl m.world
    · exact hfold _ { m with held := vs ++ m.held }
  · exact .refl m.world

end Spares

end Run

/-- What a call does itself brings up no file, unless it stores values. -/
theorem Run.Step.spares {α β : Type} {env : Env} {t : Task β} {x : Run α} (h : Step env t x)
    (hs : t.code.stores = false)
    (hn : ∀ (id : Nat) r, env.program.arena.natives[id]? = some r → r.Spares) : x.Spares := by
  cases h with
  | pure a => exact .pure a
  | exhausted => exact .throw _
  | fail => exact .fail _
  | liftFault | lookup => exact .liftFault _
  | get r => exact .get r
  | set hstores | onWorld hstores =>
    rw [hs] at hstores
    cases hstores
  | clear r => exact .set r rfl
  | format v width precision => exact .format v width precision
  | checkCancelled => exact .checkCancelled
  | announce s => exact .announce env t.chain s
  | releaseForgotten vs => exact .releaseForgotten env vs
  | native hid hr args => exact .ofHost _ (hn _ _ hr args)
  | missing => exact .fail _

/-! ## What keeps texts apart -/

variable {S : Setting} {α β : Type} {depth : Nat} {chain : Chain}

/-- A result leaves texts apart, and what it gives has a property. -/
def Run.Apart (P : α → Prop) : EStateM.Result Stop Machine α → Prop
  | .ok x m => m.world.Apart ∧ P x
  | .error _ m => m.world.Apart

namespace Run.Apart

variable {P Q : α → Prop} {r : EStateM.Result Stop Machine α}

theorem world (h : Run.Apart P r) : (Run.after r).world.Apart := by
  cases r with
  | ok x m => exact h.1
  | error e m => exact h

theorem mono (h : Run.Apart P r) (hQ : ∀ x, P x → Q x) : Run.Apart Q r := by
  cases r with
  | ok x m => exact ⟨h.1, hQ x h.2⟩
  | error e m => exact h

theorem leave (h : Run.Apart P r) (a : Around) (m : Machine) : Run.Apart P (a.leave m r) := by
  cases r with
  | ok x m' => cases a <;> exact h
  | error e m' =>
    cases a with
    | located pos =>
      cases e with
      | fault f at? => cases at? <;> exact h
      | exhausted => exact h
    | holding | activating => exact h

end Run.Apart

namespace Setting

/-- Code that assigns no text is run where texts are apart. What is known of its results comes from its
type. -/
def texts (S : Setting) : Contract Unit where
  before _ t m := t.code.KeepsTexts ∧ m.world.Apart
  after _ t _ r := Run.Apart (fun x => ∃ cells, t.code.Results S cells x) r

/-- Typed code that assigns no text is run on typed machines where texts are apart. -/
def apart (S : Setting) : Contract (List Ty) where
  before cells t m := S.contract.before cells t m ∧ t.code.KeepsTexts ∧ m.world.Apart
  after cells t m r := S.contract.after cells t m r ∧ (Run.after r).world.Apart

end Setting

/-- A plan that is typed and keeps texts apart where its calls do may count on the types of all results. -/
theorem Plan.Meets.apart {env : Env} {p : Plan α} {Q Q' : EStateM.Result Stop Machine α → Prop}
    {m : Machine} (h : p.Meets env S.contract Q m) (h' : p.Meets env S.texts Q' m) :
    p.Meets env S.apart (fun r => Q r ∧ Q' r) m := by
  induction p generalizing m with
  | action x => exact ⟨h, h'⟩
  | call t =>
    obtain ⟨cells, hb, ha⟩ := h
    obtain ⟨_, hb', ha'⟩ := h'
    refine ⟨cells, ⟨hb, hb'⟩, fun ⟨hsound, hapart⟩ => ⟨ha hsound, ha' ?_⟩⟩
    have hsound : Run.Sound S m.active cells (fun cells' => t.code.Results S cells') (t.perform env m) :=
      hsound
    cases hr : t.perform env m with
    | ok x m' =>
      rw [hr] at hsound hapart
      obtain ⟨-, cells', -, -, hx⟩ := hsound
      exact ⟨hapart, cells', hx⟩
    | error e m' =>
      rw [hr] at hapart
      exact hapart
  | bind p next ihp ihn =>
    have hboth : p.Meets env S.apart (fun r => Run.Then Q (fun a => (next a).Meets env S.contract Q) r ∧
      Run.Then Q' (fun a => (next a).Meets env S.texts Q') r) m := ihp h h'
    exact hboth.bind (fun a m' ha => ihn a ha.1 ha.2) fun e m' he => he
  | within a p ih =>
    have hboth : p.Meets env S.apart (fun r => Q (a.leave m r) ∧ Q' (a.leave m r)) (a.enter m) := ih h h'
    exact hboth

/-- A plan that is followed where texts are apart leaves them so. -/
def Plan.Apart (S : Setting) (p : Plan α) (P : α → Prop) : Prop :=
  ∀ m : Machine, m.world.Apart → p.Meets S.env S.texts (Run.Apart P) m

namespace Plan.Apart

variable {p : Plan α} {P Q : α → Prop}

theorem pure {x : α} (h : P x) : (Pure.pure x : Plan α).Apart S P :=
  fun _ hm => Plan.Meets.pure ⟨hm, h⟩

theorem bind {Q : β → Prop} {next : α → Plan β} (hp : p.Apart S P)
    (hnext : ∀ x, P x → (next x).Apart S Q) : (p >>= next).Apart S Q :=
  fun m hm => (hp m hm).bind (fun x m' h => hnext x h.2 m' h.1) fun _ _ h => h

theorem enter {c : Code α} (hc : c.KeepsTexts) :
    (Plan.enter depth chain c).Apart S fun x => ∃ cells, c.Results S cells x :=
  fun _ hm => Plan.Meets.enter () ⟨hc, hm⟩ fun _ _ hr => hr

theorem within (a : Around) (h : p.Apart S P) : (Plan.within a p).Apart S P := by
  intro m hm
  refine Plan.Meets.within (Plan.Meets.mono (h (a.enter m) ?_) fun r hr => hr.leave a m)
  cases a <;> exact hm

theorem action {x : Run α} (h : ∀ m : Machine, m.world.Apart → Run.Apart P (x m)) :
    (Plan.action x).Apart S P :=
  fun m hm => Plan.Meets.action (h m hm)

theorem spares {x : Run α} (h : x.Spares) : (Plan.action x).Apart S fun _ => True := by
  refine action fun m hm => ?_
  have hafter := hm.of_spares (h m)
  cases hr : x m with
  | ok a m' =>
    rw [hr] at hafter
    exact ⟨hafter, trivial⟩
  | error e m' =>
    rw [hr] at hafter
    exact hafter

theorem liftFault (r : Except Fault α) : (Plan.action (Run.liftFault r)).Apart S fun x => r = .ok x := by
  refine action fun m hm => ?_
  cases r with
  | ok x => exact ⟨hm, rfl⟩
  | error f => exact hm

theorem onWorld {f : World → α × World} (h : ∀ w : World, w.Apart → (f w).2.Apart) :
    (Plan.action (Run.onWorld f)).Apart S fun _ => True :=
  action fun m hm => ⟨h m.world hm, trivial⟩

theorem of_own (h : p.Own Run.Spares fun t => t.code.KeepsTexts) : p.Apart S fun _ => True := by
  induction p with
  | action x => exact spares h
  | call t => exact fun m hm => ⟨(), ⟨h, hm⟩, fun hr => Run.Apart.mono hr fun _ _ => trivial⟩
  | bind p next ihp ihn => exact (ihp h.1).bind fun x _ => ihn x (h.2 x)
  | within a p ih =>
    cases a with
    | located | holding => exact within _ (ih h)
    | activating => exact h.elim

theorem true (h : p.Apart S P) : p.Apart S fun _ => True :=
  fun m hm => (h m hm).mono fun _ hr => hr.mono fun _ _ => trivial

end Plan.Apart

/-- An assignment of what refers to no file. -/
theorem planStore_apart {target : Place} (htarget : target.all (fun _ => true) fun _ => true)
    {v : Value} (hv : v.files = []) :
    (do Plan.action (Run.set (← Plan.within (.holding [v]) (.enter depth chain (.place target))) v)
        return Flow.normal : Plan Flow).Apart S fun _ => True :=
  .bind (.within _ (.enter htarget)) fun r _ => .bind (.spares (.set r hv)) fun _ _ => .pure trivial

/-- A statement leaves texts apart if its action does. -/
theorem Stmt.plan_apart {s : Stmt} {P : Flow → Prop} (h : (s.planAction S.env depth chain).Apart S P) :
    (s.plan S.env depth chain).Apart S fun _ => True :=
  .bind (.within _ (.spares .checkCancelled)) fun _ _ => .bind (.spares (.announce _ _ _)) fun _ _ =>
    .bind (.within _ h) fun _ _ => .bind (.spares (.releaseForgotten _ _)) fun _ _ => .pure trivial

/-- Statements that store values store none that refers to a file, or one that is new. -/
theorem Stmt.planAction_apart {s : Stmt} (hs : s.keepsTexts) (ht : s.Typed S.discipline S.arena)
    (hstores : (Code.stmt s).stores) : (s.planAction S.env depth chain).Apart S fun _ => True := by
  cases s with
  | assign target value pos =>
    simp only [keepsTexts, all, Bool.and_eq_true] at hs
    obtain ⟨⟨hvalue, htarget⟩, hparts⟩ := hs
    refine .bind (.enter (c := .expr value) hparts) fun v ⟨cells, hv⟩ => planStore_apart htarget ?_
    exact Value.HasType.files_eq_nil hv (by simpa [assignsNoText] using hvalue)
  | forDo counter first direction last body pos =>
    simp only [keepsTexts, all, Bool.and_eq_true] at hs
    obtain ⟨⟨⟨⟨-, hcounter⟩, hfirst⟩, hlast⟩, hbody⟩ := hs
    obtain ⟨-, ho, -, -, -, -, -⟩ := ht
    refine .bind (.enter (c := .expr first) hfirst) fun start ⟨cells, hstart⟩ => ?_
    have hfiles : start.files = [] := by
      cases hty : first.ty with
      | basic b =>
        rw [Code.Results, hty] at hstart
        exact Value.files_of_basic (Option.isSome_of_eq_some hstart)
      | _ => rw [hty] at ho; cases ho
    refine .bind (.enter (c := .expr last) hlast) fun stop _ => ?_
    refine .bind (.liftFault _) fun stop _ => .bind (.enter (c := .place counter) hcounter) fun r _ => ?_
    refine .bind (.spares (.set r hfiles)) fun _ _ => .bind (.liftFault _) fun begins _ => ?_
    exact .true (.enter hbody)
  | new target pointee pos =>
    simp only [keepsTexts, all, Bool.and_eq_true] at hs
    intro m hm
    obtain ⟨hapart, hfresh⟩ := hm.initialValue pointee
    refine .bind (P := fun r => r = Run.onWorld (fun w => w.initialValue pointee) m) (.action rfl) ?_
      fun _ _ h => by cases h
    rintro v m₁ h₁
    cases h₁
    refine .bind (P := fun r => r = Run.onWorld (fun w => w.alloc _) _) (.action rfl) ?_
      fun _ _ h => by cases h
    rintro storage m₂ h₂
    cases h₂
    exact planStore_apart hs.2 rfl _ (hapart.alloc hfresh)
  | _ => cases hstores

/-- The counter of a loop is an ordinal. -/
theorem planFor_apart {step : Int} {counter : Ref} {start : Value} {body : Stmt} {rounds : Nat}
    {current : Int} (hbody : body.keepsTexts) :
    (planFor depth chain step counter start body rounds current).Apart S fun _ => True := by
  cases rounds with
  | zero => exact .pure trivial
  | succ n =>
    refine .bind (.spares .checkCancelled) fun _ _ => .bind (.liftFault _) fun v hv => ?_
    refine .bind (.spares (.set counter (Value.files_of_basic (Value.isSome_basic_of_withOrdinal hv))))
      fun _ _ => .bind (.enter (c := .stmt body) hbody) fun flow _ => ?_
    cases flow with
    | normal | continueLoop =>
      exact .true (.enter hbody)
    | _ => exact .pure trivial

section Calls

variable (hk : S.env.program.arena.KeepsTexts)
include hk

/-- A routine begins with variables of its own, and with copies of values that refer to no file. -/
theorem planActivation_apart {id : Nat} {body : Stmt} {passed : List Passed}
    (hbody : (S.env.program.arena.function id).body = some body)
    (hpassed : ∀ v, .value v ∈ passed → v.files = []) :
    (S.env.planActivation depth chain (S.env.program.arena.function id) body passed).Apart S
      fun _ => True := by
  refine .bind (.onWorld fun w hw => hw.newFrame hpassed (hk.vars _)) fun frame _ => ?_
  refine .bind (.within _ (.enter (c := .stmt body) (hk.bodies id body hbody))) fun _ _ => ?_
  refine .bind (.spares ?_) fun result _ => .bind (.spares (.releaseForgotten _ _)) fun _ _ => .pure trivial
  split
  · exact .pure none
  · split
    · exact .fail _
    · next r _ => exact (Run.Spares.get r).map some

omit hk in
/-- What is passed by value for parameters without texts refers to no file. -/
theorem files_of_passedTyped {cells : List Ty} {passed : List Passed} {ps : List Parameter}
    (h : passedTyped S.discipline cells none passed ps) (hps : ∀ q ∈ ps, q.keepsTexts) :
    ∀ v, .value v ∈ passed → v.files = [] := by
  induction passed generalizing ps with
  | nil => simp
  | cons x passed ih =>
    cases ps with
    | nil =>
      obtain ⟨⟨t, mode, hfurther, -⟩, -⟩ := h
      cases hfurther
    | cons q ps =>
      obtain ⟨hq, hps⟩ := List.forall_mem_cons.mp hps
      intro v hv
      rcases List.mem_cons.mp hv with rfl | hv
      · obtain ⟨hm, htype⟩ := h.1
        have htextless : q.ty.isTextless := by simpa [Parameter.keepsTexts, hm] using hq
        exact htype.files_eq_nil (by simpa using htextless)
      · exact ih h.2 hps v hv

theorem planCall_apart (hS : S.Sound) {cells : List Ty} {id : Nat} {passed : List Passed}
    (hpassed : passedTyped S.discipline cells (S.arena.signature (.user id)).split.2 passed
      (S.arena.signature (.user id)).split.1) :
    (S.env.planCall depth chain (.user id) passed).Apart S fun _ => True := by
  simp only [Env.planCall]
  cases hbody : (S.env.program.arena.function id).body with
  | none => exact .spares (.fail _)
  | some body =>
    cases depth with
    | zero => exact .spares (.fail _)
    | succ depth =>
      refine planActivation_apart hk hbody ?_
      have hid : id < S.arena.functions.size := by
        by_contra hge
        rw [← hS.alike.size] at hge
        rw [Arena.function, Array.getElem?_eq_none (by omega)] at hbody
        cases hbody
      have hsig := hS.alike.signature id
      rw [show S.arena.signature (.user id) = (S.arena.function id).signature from rfl,
        Signature.split_of_written (hS.arena.functions id hid).2] at hpassed
      exact files_of_passedTyped hpassed (hsig ▸ hk.params id)

end Calls

/-- A call that stores no values leaves texts apart, since it brings up no file. -/
theorem Task.plan_apart {t : Task α} (hk : S.env.program.arena.KeepsTexts) (hc : t.code.KeepsTexts)
    (hcall : t.code.isActivation = false) (hs : t.code.stores = false) :
    (t.plan S.env).Apart S fun _ => True :=
  .of_own (((t.plan_own hcall).and (plan_all (by simp) (by simp) t.code hc hcall)).mono
    (fun _ hx => hx.spares hs hk.natives) fun _ ht => ht.2)

/-- All calls of typed code that assigns no text keep texts apart. -/
theorem Setting.Sound.apart_kept (hS : S.Sound) (hk : S.env.program.arena.KeepsTexts) :
    S.apart.Kept S.env := by
  rintro α cells t m ⟨hb, hc, hm⟩
  suffices h : (t.plan S.env).Apart S fun _ => True from
    ((hS.kept cells t m hb).apart (h m hm)).mono fun _ hr => ⟨hr.1, hr.2.world⟩
  obtain ⟨code, chain, depth⟩ := t
  have hcode : code.Typed S cells := hb.2.2
  cases hcall : code.isActivation with
  | true =>
    cases code with
    | call callee passed =>
      cases callee with
      | user id => exact planCall_apart hk hS hcode
      | native id => cases hcall
    | _ => cases hcall
  | false =>
    cases hstores : code.stores with
    | false => exact Task.plan_apart hk hc hcall hstores
    | true =>
      cases code with
      | stmt s => exact Stmt.plan_apart (s.planAction_apart hc hcode hstores)
      | forRounds step counter start body rounds current => exact planFor_apart hc
      | _ => cases hstores

end Pascal
