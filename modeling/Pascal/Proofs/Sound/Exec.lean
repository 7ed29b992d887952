import Pascal.Proofs.Sound.Eval

/-!
# Typed statements keep storage typed

One lemma for the plan of each kind of code that is executed, and for calls. Together they show that all
plans keep the contract of typed code.
-/

namespace Pascal

variable {S : Setting} {cells : List Ty} {live : List Frame} {chain : Chain} {depth : Nat}

/-- Routines of a program take no number of arguments of their own. -/
theorem Signature.split_of_written {s : Signature} (h : ∀ p ∈ s.params, p.ty.isWritten) :
    s.split = (s.params, none) := by
  unfold Signature.split
  split
  · next name element mode he => cases h _ (List.mem_of_getLast? he)
  · rfl

section Calls

variable (hS : S.Sound) (hchain : ∀ f ∈ chain, f ∈ live)
include hS hchain

/-- A routine runs on a frame of typed storage and hands over the value of its result. -/
theorem planActivation_sound {id : Nat} {body : Stmt} {passed : List Passed}
    (hbody : (S.env.program.arena.function id).body = some body)
    (hpassed : passedTyped S.discipline cells (S.arena.signature (.user id)).split.2 passed
      (S.arena.signature (.user id)).split.1) :
    (S.env.planActivation depth chain (S.env.program.arena.function id) body passed).Sound S live cells
      fun cells' => (S.arena.signature (.user id)).Returns S.discipline cells' := by
  have hid : id < S.arena.functions.size := by
    by_contra hge
    rw [← hS.alike.size] at hge
    rw [Arena.function, Array.getElem?_eq_none (by omega)] at hbody
    cases hbody
  have hheading := hS.alike.heading id
  have hsig := hS.alike.signature id
  have hown := hS.alike.ownScope id
  have hsplit := Signature.split_of_written (hS.arena.functions id hid).2
  rw [show S.arena.signature (.user id) = (S.arena.function id).signature from rfl] at hpassed ⊢
  rw [hsplit, ← hsig] at hpassed
  rw [← hsig]
  generalize hf : S.env.program.arena.function id = f at *
  refine .bind (.onWorld fun w hw hall => ?_) (P := fun cells' frame =>
    frame.scope = f.scope ∧ frame.Typed S.discipline S.arena cells') fun cells₁ frame hc₁ hframe => ?_
  · obtain ⟨cells', hc, hstore, hwritten, hframe⟩ :=
      UserRoutine.newFrame_typed hS.arena hS.nested hS.headed hid hheading hw hall hpassed
    rw [← hS.alike.scope] at hstore hframe
    exact ⟨cells', hc, hstore, hwritten, rfl, hframe⟩
  obtain ⟨hscope, hframe⟩ := hframe
  refine .bind (.activating hframe (.enter (c := .stmt body) ?_ (hS.bodies id body (hf ▸ hbody))))
    fun cells₂ _ hc₂ _ => ?_
  · refine List.forall_mem_cons.mpr ⟨List.mem_cons_self, fun g hg => ?_⟩
    exact List.mem_cons_of_mem _ (hchain g ((List.dropWhile_suffix _).subset hg))
  refine .bind (P := fun cells' => f.signature.Returns S.discipline cells') ?_
    fun cells₃ result _ hgiven => ?_
  · cases hres : f.signature.result with
    | none => exact .pure fun t ht => by rw [hres] at ht; cases ht
    | some t =>
      dsimp only
      cases hslot : frame.slot? resultName with
      | none => exact .fail (.inl rfl)
      | some r =>
        obtain ⟨u, hu, hshows, -⟩ := (hframe.mono hc₂).slot hslot
        have hdeclared := hS.headed.result hid (hsig ▸ hres)
        rw [hscope, hown, Arena.varTy?_eq_some hdeclared] at hu
        cases hu
        refine .mono (.map (.get hshows)) fun cells' _ _ hv t' ht' => ?_
        obtain ⟨v, rfl, hv⟩ := hv
        rw [hres] at ht'
        cases ht'
        exact ⟨v, rfl, hv⟩
  · refine .bind .releaseForgotten fun cells₄ _ hc₄ _ => .pure fun t ht => ?_
    obtain ⟨v, hv, htype⟩ := hgiven t ht
    exact ⟨v, hv, htype.mono hc₄⟩

/-- A call with what the routine admits gives what it returns. -/
theorem planCall_sound {callee : Callee} {passed : List Passed}
    (hpassed : passedTyped S.discipline cells (S.arena.signature callee).split.2 passed
      (S.arena.signature callee).split.1) :
    (S.env.planCall depth chain callee passed).Sound S live cells fun cells' =>
      (S.arena.signature callee).Returns S.discipline cells' := by
  cases callee with
  | user id =>
    simp only [Env.planCall]
    cases hbody : (S.env.program.arena.function id).body with
    | none => exact .fail (.inl rfl)
    | some body =>
      cases depth with
      | zero => exact .fail trivial
      | succ depth => exact planActivation_sound hS hchain hbody hpassed
  | native id =>
    simp only [Env.planCall]
    rw [hS.alike.natives]
    cases hr : S.arena.natives[id]? with
    | none => exact .fail (.inl rfl)
    | some r =>
      simp only [Arena.signature, hr] at hpassed ⊢
      refine .mono (.ofHost (hS.natives id r hr cells _ ⟨passed, rfl, hpassed⟩)) ?_
      rintro _ result _ ⟨rfl, hresult⟩
      exact hresult

end Calls

section Statements

variable (hS : S.Sound) (hchain : ∀ f ∈ chain, f ∈ live)
include hchain

include hS in
theorem Stmt.planAction_sound {s : Stmt} (hs : s.Typed S.discipline S.arena) :
    (s.planAction S.env depth chain).Sound S live cells fun _ _ => True := by
  have hstmt : ∀ {cells : List Ty} {s : Stmt}, s.Typed S.discipline S.arena →
      (Plan.enter depth chain (.stmt s)).Sound S live cells fun _ _ => True := fun hs =>
    .mono (.enter (c := .stmt _) hchain hs) fun _ _ _ _ => trivial
  cases s with
  | block body pos => exact .mono (.enter (c := .stmts body) hchain hs) fun _ _ _ _ => trivial
  | assign target value pos =>
    obtain ⟨hv, ht, hc⟩ := hs
    refine .bind (.enter (c := .expr value) hchain hv) fun cells₁ v _ hv' => ?_
    refine .bind (.holding (.enter (c := .place target) hchain ⟨_, ht⟩)) fun cells₂ r hc₂ hr => ?_
    refine .bind (.set ((hr _ ht).exact ?_) (hv'.mono hc₂)) fun _ _ _ _ => .pure trivial
    exact fun hb => (hc hb).imp_right fun h => by simpa using h
  | call callee name args pos =>
    have hsig := hS.arena.signature_tame callee
    refine .bind (.enter (c := .args args) hchain ⟨_, _, hs⟩) fun cells₁ passed _ hpassed => ?_
    have hpassed := passedTyped_of_gives hpassed hs hsig.params hsig.further
    exact .bind (.enter (c := .call callee passed) hchain hpassed) fun _ _ _ _ => .pure trivial
  | ifThen condition yes no pos =>
    obtain ⟨hc, hty, hyes, hno⟩ := hs
    cases no with
    | none =>
      refine .bind (planTruth_sound hchain hc hty) fun cells₁ b _ _ => ?_
      split
      · exact hstmt hyes
      · exact .pure trivial
    | some no =>
      refine .bind (planTruth_sound hchain hc hty) fun cells₁ b _ _ => ?_
      split
      · exact hstmt hyes
      · exact hstmt hno
  | whileDo condition body pos =>
    exact .mono (.enter (c := .whileRounds condition body S.env.rounds) hchain hs) fun _ _ _ _ => trivial
  | repeatUntil body condition pos =>
    exact .mono (.enter (c := .repeatRounds body condition S.env.rounds) hchain hs)
      fun _ _ _ _ => trivial
  | forDo counter first direction last body pos =>
    obtain ⟨-, ho, hcount, hf, hl, hlty, hbody⟩ := hs
    obtain ⟨b, hb⟩ : ∃ b, first.ty = .basic b := by
      cases hty : first.ty with
      | basic b => exact ⟨b, rfl⟩
      | _ => rw [hty] at ho; cases ho
    rw [hb] at ho hcount hlty
    refine .bind (.enter (c := .expr first) hchain hf) fun cells₁ start _ hstart => ?_
    rw [Code.Results, hb] at hstart
    refine .bind (.enter (c := .expr last) hchain hl) fun cells₂ stop hc₂ hstop => ?_
    rw [Code.Results, hlty] at hstop
    refine .bind (.ordinal (t := .basic b) hstop ho) fun cells₃ stop hc₃ _ => ?_
    refine .bind (.enter (c := .place counter) hchain ⟨_, hcount⟩) fun cells₄ r hc₄ hr => ?_
    have hr := (hr _ hcount).basic
    refine .bind (.set hr hstart) fun cells₅ _ hc₅ _ => ?_
    refine .bind (.ordinal (t := .basic b) hstart ho) fun cells₆ begins hc₆ _ => ?_
    exact .mono (.enter (c := .forRounds _ r start body _ _) hchain
      ⟨⟨b, ho, hstart, hr.mono (hc₅.trans hc₆)⟩, hbody⟩) fun _ _ _ _ => trivial
  | caseOf selector arms otherwise pos =>
    obtain ⟨hsel, ho, harms, hotherwise⟩ := hs
    cases otherwise with
    | none =>
      refine .bind (.enter (c := .expr selector) hchain hsel) fun cells₁ v _ hv => ?_
      refine .bind (.ordinal hv ho) fun cells₂ ordinal _ _ => ?_
      refine .bind (.enter (c := .arms ordinal arms) hchain harms) fun cells₃ flow _ _ => ?_
      cases flow with
      | some flow => exact .pure trivial
      | none => exact .pure trivial
    | some otherwise =>
      refine .bind (.enter (c := .expr selector) hchain hsel) fun cells₁ v _ hv => ?_
      refine .bind (.ordinal hv ho) fun cells₂ ordinal _ _ => ?_
      refine .bind (.enter (c := .arms ordinal arms) hchain harms) fun cells₃ flow _ _ => ?_
      cases flow with
      | some flow => exact .pure trivial
      | none => exact hstmt hotherwise
  | breakLoop | continueLoop | exitRoutine | empty => exact .pure trivial
  | new target pointee pos =>
    have ht : target.Typed S.discipline S.arena (.pointer pointee) := hs
    refine .bind (P := fun cells' v => ∃ u : Ty, u.isWritten ∧ v.HasType cells' u ∧
        (pointee.isWritten → u = pointee.outline S.discipline.bounds))
      (.onWorld fun w hw hall => ⟨cells, List.prefix_rfl, w.store_initialValue pointee ▸ hw, hall,
        w.exists_initialValue_hasType pointee _⟩) fun cells₁ v _ hv => ?_
    obtain ⟨u, hu, hv, hexact⟩ := hv
    refine .bind (P := fun cells' r => r.HasType cells' u)
      (.onWorld fun w hw hall => ⟨_, List.prefix_append _ _, (hw.alloc hv).1, hall.push hu,
        (hw.alloc hv).2⟩) fun cells₂ storage _ hstorage => ?_
    refine .bind (.holding (.enter (c := .place target) hchain ⟨_, ht⟩)) fun cells₃ r hc₃ hr => ?_
    -- what the target is declared as can be written down, and so can what it points to
    refine .of_written fun hall => ?_
    have hr := (hr _ ht).pointer ht.tame
    have hpointee : (pointee.outline S.discipline.bounds).isWritten := hr.isWritten hall
    rw [Ty.isWritten_outline] at hpointee
    refine .bind (.set hr ⟨some storage, rfl, ?_⟩) fun _ _ _ _ => .pure trivial
    rintro r' ⟨⟩
    exact hexact hpointee ▸ hstorage.mono hc₃
  | dispose target pos =>
    obtain ⟨t, ht⟩ := hs
    refine .bind (.enter (c := .place target) hchain ⟨_, ht⟩) fun cells₁ r _ hr => ?_
    refine .bind (.get (hr _ ht)) fun cells₂ v hc₂ hv => ?_
    have hset : (Plan.action (Run.set r (.pointer none))).Sound S live cells₂ fun _ _ => True :=
      .set (((hr _ ht).mono hc₂).pointer ht.tame) ⟨none, rfl, by simp⟩
    obtain ⟨target', rfl, -⟩ := hv
    cases target' with
    | none => exact .fail trivial
    | some r' => exact .bind hset fun _ _ _ _ => .pure trivial

include hS in
theorem Stmt.plan_sound {s : Stmt} (hs : s.Typed S.discipline S.arena) :
    (s.plan S.env depth chain).Sound S live cells fun _ _ => True :=
  .bind (.located .checkCancelled) fun _ _ _ _ => .bind .announce fun _ _ _ _ =>
    .bind (.located (s.planAction_sound hS hchain hs)) fun _ _ _ _ =>
      .bind .releaseForgotten fun _ _ _ _ => .pure trivial

theorem planAll_sound {ss : List Stmt} (hss : stmtsTyped S.discipline S.arena ss) :
    (planAll depth chain ss).Sound S live cells fun _ _ => True := by
  cases ss with
  | nil => exact .pure trivial
  | cons s ss =>
    refine .bind (.enter (c := .stmt s) hchain hss.1) fun cells₁ flow _ _ => ?_
    cases flow with
    | normal => exact .mono (.enter (c := .stmts ss) hchain hss.2) fun _ _ _ _ => trivial
    | _ => exact .pure trivial

theorem planArm_sound {ordinal : Int} {arms : List Arm}
    (harms : armsTyped S.discipline S.arena arms) :
    (planArm depth chain ordinal arms).Sound S live cells fun _ _ => True := by
  cases arms with
  | nil => exact .pure trivial
  | cons arm arms =>
    obtain ⟨labels, body⟩ := arm
    obtain ⟨hbody, harms⟩ := harms
    rw [planArm]
    split
    · exact .bind (.enter (c := .stmt body) hchain hbody) fun _ _ _ _ => .pure trivial
    · exact .mono (.enter (c := .arms ordinal arms) hchain harms) fun _ _ _ _ => trivial

theorem planWhile_sound {condition : Expr} {body : Stmt} {rounds : Nat}
    (hc : condition.Typed S.discipline S.arena) (hty : condition.ty = .boolean)
    (hbody : body.Typed S.discipline S.arena) :
    (planWhile depth chain condition body rounds).Sound S live cells fun _ _ => True := by
  cases rounds with
  | zero => exact .exhausted
  | succ n =>
    refine .bind (planTruth_sound hchain hc hty) fun cells₁ b _ _ => ?_
    split
    · refine .bind .checkCancelled fun cells₂ _ _ _ => ?_
      refine .bind (.enter (c := .stmt body) hchain hbody) fun cells₃ flow _ _ => ?_
      cases flow with
      | normal | continueLoop =>
        exact .mono (.enter (c := .whileRounds condition body n) hchain ⟨hc, hty, hbody⟩)
          fun _ _ _ _ => trivial
      | _ => exact .pure trivial
    · exact .pure trivial

theorem planRepeat_sound {condition : Expr} {body : List Stmt} {rounds : Nat}
    (hc : condition.Typed S.discipline S.arena) (hty : condition.ty = .boolean)
    (hbody : stmtsTyped S.discipline S.arena body) :
    (planRepeat depth chain body condition rounds).Sound S live cells fun _ _ => True := by
  cases rounds with
  | zero => exact .exhausted
  | succ n =>
    refine .bind .checkCancelled fun cells₁ _ _ _ => ?_
    refine .bind (.enter (c := .stmts body) hchain hbody) fun cells₂ flow _ _ => ?_
    cases flow with
    | normal | continueLoop =>
      refine .bind (planTruth_sound hchain hc hty) fun cells₃ b _ _ => ?_
      split
      · exact .pure trivial
      · exact .mono (.enter (c := .repeatRounds body condition n) hchain ⟨hc, hty, hbody⟩)
          fun _ _ _ _ => trivial
    | _ => exact .pure trivial

theorem planFor_sound {step : Int} {counter : Ref} {start : Value} {body : Stmt} {rounds : Nat}
    {current : Int} {b : Basic} (hb : (Ty.basic b).isOrdinal) (hstart : start.basic? = some b)
    (hcounter : counter.HasType cells (.basic b)) (hbody : body.Typed S.discipline S.arena) :
    (planFor depth chain step counter start body rounds current).Sound S live cells
      fun _ _ => True := by
  cases rounds with
  | zero => exact .pure trivial
  | succ n =>
    refine .bind .checkCancelled fun cells₁ _ hc₁ _ => ?_
    refine .bind (.gives (P := fun _ v => v.basic? = some b)
      (Value.withOrdinal_gives hstart hb current)) fun cells₂ v hc₂ hv => ?_
    have hcounter := hcounter.mono (hc₁.trans hc₂)
    refine .bind (.set hcounter hv) fun cells₃ _ hc₃ _ => ?_
    refine .bind (.enter (c := .stmt body) hchain hbody) fun cells₄ flow hc₄ _ => ?_
    cases flow with
    | normal | continueLoop =>
      exact .mono (.enter (c := .forRounds step counter start body n _) hchain
        ⟨⟨b, hb, hstart, hcounter.mono (hc₃.trans hc₄)⟩, hbody⟩) fun _ _ _ _ => trivial
    | _ => exact .pure trivial

end Statements

/-- Typed code keeps the contract: it keeps storage typed and results in what its type promises. -/
theorem Setting.Sound.kept (hS : S.Sound) : S.contract.Kept S.env := by
  rintro α cells ⟨code, chain, depth⟩ m ⟨hchain, hm, hcode⟩
  cases code with
  | expr e => exact Expr.plan_sound hS hchain hcode m rfl hm
  | place p =>
    obtain ⟨t, hp⟩ := hcode
    refine (Place.plan_sound hchain hp).mono (fun cells' r _ hr u hu => ?_) m rfl hm
    cases Option.some.inj (hp.ty?.symm.trans hu.ty?)
    exact hr
  | items es =>
    obtain ⟨element, hes⟩ := hcode
    refine (planItems_sound hchain hes).mono (fun cells' vs _ hvs element' hes' => ?_) m rfl hm
    cases es with
    | nil => simp [hvs.2.2 rfl]
    | cons e es =>
      have hty := (itemsTyped_iff.mp hes e List.mem_cons_self).ty
      rw [(itemsTyped_iff.mp hes' e List.mem_cons_self).ty] at hty
      exact hty ▸ ⟨hvs.1, hvs.2.1⟩
  | arg x =>
    obtain ⟨t, mode, hx⟩ := hcode
    exact Arg.plan_sound hchain hx m rfl hm
  | args xs =>
    obtain ⟨further, params, hxs⟩ := hcode
    exact planArgs_sound hchain hxs m rfl hm
  | call callee passed => exact planCall_sound hS hchain hcode m rfl hm
  | stmt s => exact Stmt.plan_sound hS hchain hcode m rfl hm
  | stmts ss => exact planAll_sound hchain hcode m rfl hm
  | arms ordinal as => exact planArm_sound hchain hcode m rfl hm
  | whileRounds condition body rounds =>
    exact planWhile_sound hchain hcode.1 hcode.2.1 hcode.2.2 m rfl hm
  | repeatRounds body condition rounds =>
    exact planRepeat_sound hchain hcode.1 hcode.2.1 hcode.2.2 m rfl hm
  | forRounds step counter start body rounds current =>
    obtain ⟨⟨b, hb, hstart, hcounter⟩, hbody⟩ := hcode
    exact planFor_sound hchain hb hstart hcounter hbody m rfl hm

end Pascal
