import Pascal.Proofs.Parse.Ty

/-! # Every statement that is read has been built -/

namespace Pascal.Parser

variable {ranges : Bool} {ctx : Context}

/-- Reads statements that have been built, at every cursor. -/
def BuildsStmt (ranges : Bool) (ctx : Context) (p : Parser Stmt) : Prop :=
  ∀ I, Cursor.Guard ranges I → p.Yields I (Stmt.Built ranges ctx)

section Guarded

variable {I : Cursor → Prop} (hI : Cursor.Guard ranges I)

include hI

theorem Yields.condition :
    (Parser.condition ctx).Yields I (fun c =>
      ∃ e, Expr.Built ranges ctx e ∧ e.coerce .boolean = .ok c) :=
  (Yields.expression hI).bind fun e he => Yields.check.mono fun _ h => ⟨e, he, h⟩

omit hI in
theorem Yields.atEnd {stop : Token.Kind → Bool} :
    (Parser.atEnd stop).Yields I (fun _ => True) :=
  Yields.isDone.bind fun _ _ => Yields.atKind.bind fun _ _ => .pure trivial

/-- The statements between semicolons. -/
theorem Yields.statements {P : Stmt → Prop} {statement : Parser Stmt} {stop : Token.Kind → Bool}
    (h : statement.Yields I P) :
    (Parser.statements statement stop).Yields I (fun ss => ∀ s ∈ ss, P s) := by
  refine (Yields.repeated (Q := fun r => ∀ s, r = some s → P s) ?_).bind fun rounds hr => .pure ?_
  · refine Yields.atEnd.bind fun b _ => ?_
    cases b with
    | true => exact .pure (by simp)
    | false =>
      refine (Yields.eatSymbol hI).bind fun b _ => ?_
      cases b with
      | true => exact .pure (by simp)
      | false =>
        refine h.bind fun s hs => Yields.atEnd.bind fun b _ => ?_
        have hdone : ∀ r : Option Stmt, some (some s) = some r → ∀ s, r = some s → P s := by
          rintro r ⟨⟩ s' ⟨⟩
          exact hs
        cases b with
        | true => exact .pure hdone
        | false => exact (Yields.expectSymbol hI).bind fun _ _ => .pure hdone
  · intro s hs
    simp only [List.mem_filterMap, id_eq] at hs
    obtain ⟨r, hmem, rfl⟩ := hs
    exact hr _ hmem s rfl

omit hI in
theorem Yields.block {statement : Parser Stmt} {g : Group} (h : statement.BuildsStmt ranges ctx)
    (hg : Cursor.Fair ranges (.ofGroup g)) :
    (Parser.block statement g).Yields I (Stmt.Built ranges ctx) :=
  have hfair := Cursor.guard_fair ranges
  (Yields.inside hg (Yields.statements hfair (h _ hfair))).bind fun _ hbody => .pure (.block hbody)

theorem Yields.direction : Parser.direction.Yields I (fun _ => True) := by
  refine (Yields.eatKeyword hI (by simp)).bind fun b _ => ?_
  cases b with
  | true => exact .pure trivial
  | false =>
    refine (Yields.eatKeyword hI (by simp)).bind fun b _ => ?_
    cases b with
    | true => exact .pure trivial
    | false => exact .unexpected

omit hI in
theorem Yields.loopSignal {s : Stmt} {name : String} {p : Position}
    (h : ctx.inLoop → s.Built ranges ctx) :
    (Parser.loopSignal ctx s name p).Yields I (Stmt.Built ranges ctx) := by
  unfold Parser.loopSignal
  split
  · next hl => exact .pure (h hl)
  · exact .fail

/-- A value given to `exit` is an assignment to the result. -/
theorem Yields.exitStatement {p : Position} :
    (Parser.exitStatement ctx p).Yields I (Stmt.Built ranges ctx) := by
  refine (Yields.group? hI).bind fun g hg => ?_
  cases g with
  | none => exact .pure .exitRoutine
  | some g =>
    dsimp only
    split
    · exact .pure .exitRoutine
    · split
      · exact .fail
      · next target ty hr =>
        refine (Yields.inside (hg g rfl).1 (Yields.expression (Cursor.guard_fair ranges))).bind fun e he =>
          Yields.check.bind fun value hv => .pure (.block ?_)
        simpa using ⟨.assignResult (.inl hr) he hv, .exitRoutine⟩

omit hI in
theorem Yields.allocation {name : String} {g : Group} (hg : Cursor.Fair ranges (.ofGroup g)) :
    (Parser.allocation ctx name g).Yields I (fun r =>
      ∃ e, Expr.Built ranges ctx e ∧ e.ty = .pointer r.2 ∧ e.place? = some r.1) := by
  refine (Yields.inside hg (Yields.designator ranges ctx (Cursor.guard_fair ranges))).bind ?_
  intro target ht
  split
  · next pointee p hty hp => exact .pure ⟨target, ht.2 rfl, hty, hp⟩
  · exact .fail
  · exact .fail

theorem Yields.assignmentOrCall {name : String} {p : Position} :
    (Parser.assignmentOrCall ctx name p).Yields I (Stmt.Built ranges ctx) := by
  refine (Yields.designator ranges ctx hI).bind fun target ht => ?_
  refine (Yields.eatSymbol hI).bind fun b _ => ?_
  cases b with
  | true =>
    rw [if_pos rfl]
    refine (Yields.expression hI).bind fun value hvalue => ?_
    split
    · exact Yields.bind (Q := fun _ => False) Yields.fail fun _ h => h.elim
    · next place hp =>
      refine Yields.check.bind fun v hv => .pure ?_
      cases ht.1 with
      | expression ht => exact .assign ht hp hvalue hv
      | procedure => cases hp
  | false =>
    rw [if_neg (by simp)]
    split
    · next callee callee' bound note =>
      refine .pure ?_
      cases ht.1 with
      | expression ht =>
        obtain ⟨name, args, p, result, hargs, hcall⟩ := ht.call_inv
        exact .call hargs hcall
      | procedure hargs hcall => exact .call hargs hcall
    · exact .unexpected

omit hI in
private theorem symbol_of_isSymbol {k : Token.Kind} {s : Symbol} (h : k.isSymbol s) :
    k = .symbol s := by
  unfold Token.Kind.isSymbol at h
  split at h
  · next t => rw [of_decide_eq_true h]
  · cases h

/-- The name of a function and `:=` are passed over where its result is assigned to. -/
private theorem skip_assign {name : String} {q : Parser Stmt} {Q : Stmt → Prop}
    (hq : q.Yields I Q) :
    (Parser.skip >>= fun _ => Parser.skip >>= fun _ => q).Meets
      (fun c => I c ∧ c.kind? = some (.identifier name) ∧
        c.behind.kind? = some (.symbol .assign))
      (fun s c => Q s ∧ I c) := by
  refine Meets.bind (S := fun _ c => I c ∧ c.kind? = some (.symbol .assign)) ?_ fun _ =>
    Yields.skip hI (by simp [Cursor.IsMark]) hq
  intro c _ c' hc h
  cases h
  exact ⟨hI.behind hc.1 (by simp [Cursor.IsMark, hc.2.1]), hc.2.2⟩

theorem Yields.namedStatement {name : String} {p : Position} :
    (Parser.namedStatement ctx name p).Meets
      (fun c => I c ∧ c.kind? = some (.identifier name))
      (fun s c => s.Built ranges ctx ∧ I c) := by
  refine Meets.bind (S := fun k c => I c ∧ c.kind? = some (.identifier name) ∧
    c.behind.kind? = k) ?_ fun k => ?_
  · intro c k c' hc h
    cases h
    exact ⟨hc.1, hc.2, rfl⟩
  dsimp only
  split
  · next target ty hr =>
    obtain ⟨hk, hr⟩ : k = some (.symbol .assign) ∧ ctx.namedResult? name = some (target, ty) := by
      split at hr
      · next ha =>
        obtain ⟨k, rfl, hk⟩ := (Option.any_eq_true _ _).mp ha
        exact ⟨congrArg some (symbol_of_isSymbol hk), hr⟩
      · cases hr
    rw [hk]
    refine skip_assign hI ?_
    refine (Yields.expression hI).bind fun value hvalue => Yields.check.bind fun v hv => .pure ?_
    exact .assignResult (.inr ⟨name, hr⟩) hvalue hv
  · split
    · refine Meets.bind (S := fun _ c => I c) ?_ fun _ => ?_
      · intro c _ c' hc h
        cases h
        exact hI.behind hc.1 (by simp [Cursor.IsMark, hc.2.1])
      · refine (Yields.group hI).bind fun g hg => (Yields.allocation hg).bind fun r hr => ?_
        obtain ⟨e, he, hty, hp⟩ := hr
        split
        · exact .pure (.new he hty hp)
        · exact .pure (.dispose he hty hp)
    · exact fun c s c' hc h => (Yields.assignmentOrCall hI) hc.1 h

section Nested

variable {statement body : Parser Stmt} (h : statement.BuildsStmt ranges ctx)
  (hbody : body.BuildsStmt ranges ctx.looping)

include hbody in
theorem Yields.repeatLoop {g : Group} {p : Position} (hg : Cursor.Fair ranges (.ofGroup g)) :
    (Parser.repeatLoop ctx body g p).Yields I (Stmt.Built ranges ctx) := by
  have hfair := Cursor.guard_fair ranges
  refine (Yields.inside hg (Yields.statements hfair (hbody _ hfair))).bind fun body hbody => ?_
  refine (Yields.condition hI).bind fun c hc => .pure ?_
  obtain ⟨e, he, hc⟩ := hc
  exact .repeatUntil he hc hbody

include h in
theorem Yields.ifStatement {p : Position} :
    (Parser.ifStatement ctx statement p).Yields I (Stmt.Built ranges ctx) := by
  refine (Yields.condition hI).bind fun c hc => (Yields.expectKeyword hI (by simp)).bind fun _ _ => ?_
  obtain ⟨e, he, hc⟩ := hc
  refine (h I hI).bind fun yes hyes => (Yields.eatKeyword hI (by simp)).bind fun b _ => ?_
  cases b with
  | true =>
    refine ((h I hI).map (f := some) (S := fun no => ∀ s, no = some s → Stmt.Built ranges ctx s) ?_).bind
      fun no hno => .pure (.ifThen he hc hyes hno)
    rintro s hs s' ⟨⟩
    exact hs
  | false =>
    refine Yields.bind (Q := fun no => no = none) (Yields.pure rfl) fun no hno => .pure ?_
    exact .ifThen he hc hyes (by simp [hno])

include hbody in
theorem Yields.whileLoop {p : Position} :
    (Parser.whileLoop ctx body p).Yields I (Stmt.Built ranges ctx) := by
  refine (Yields.condition hI).bind fun c hc => (Yields.expectKeyword hI (by simp)).bind fun _ _ => ?_
  obtain ⟨e, he, hc⟩ := hc
  exact (hbody I hI).bind fun s hs => .pure (.whileDo he hc hs)

include hbody in
theorem Yields.forLoop {p : Position} :
    (Parser.forLoop ctx body p).Yields I (Stmt.Built ranges ctx) := by
  refine (Yields.designator ranges ctx hI).bind fun counter hcounter => ?_
  dsimp only
  split
  · exact Yields.bind (Q := fun _ => False) Yields.fail fun _ h => h.elim
  · next ho =>
    split
    · next v hv =>
      refine (Yields.expectSymbol hI).bind fun _ _ => ?_
      refine (Yields.expression hI).bind fun first hfirst => Yields.check.bind fun first' h => ?_
      refine (Yields.direction hI).bind fun direction _ => ?_
      refine (Yields.expression hI).bind fun last hlast => Yields.check.bind fun last' h' => ?_
      refine (Yields.expectKeyword hI (by simp)).bind fun _ _ => ?_
      refine (hbody I hI).bind fun s hs => .pure ?_
      exact .forDo (hcounter.2 rfl) hv (by simpa using ho) hfirst h hlast h' hs
    · exact .fail

theorem Yields.label {selector : Ty} :
    (Parser.label ctx selector).Yields I (fun _ => True) := by
  refine (Yields.expression hI).bind fun low _ => Yields.check.bind fun v _ => ?_
  refine (Yields.eatSymbol hI).bind fun b _ => ?_
  cases b with
  | true => exact (Yields.expression hI).bind fun high _ => Yields.check.bind fun v _ => .pure trivial
  | false => exact .pure trivial

include h in
theorem Yields.arms {selector : Ty} :
    (Parser.arms ctx statement selector).Yields I (fun arms =>
      ∀ labels body, .mk labels body ∈ arms → body.Built ranges ctx) := by
  refine (Yields.repeated (Q := fun r => ∀ labels body, r = some (Arm.mk labels body) →
    body.Built ranges ctx) ?_).bind fun rounds hr => .pure ?_
  · refine Yields.atEnd.bind fun b _ => ?_
    cases b with
    | true => exact .pure (by simp)
    | false =>
      refine (Yields.eatSymbol hI).bind fun b _ => ?_
      cases b with
      | true => exact .pure (by simp)
      | false =>
        refine (Yields.commaSeparated hI (Yields.label hI)).bind fun labels _ => ?_
        refine (Yields.expectSymbol hI).bind fun _ _ => (h I hI).bind fun s hs => ?_
        have hdone : ∀ r : Option Arm, some (some (.mk labels s)) = some r →
            ∀ labels body, r = some (.mk labels body) → body.Built ranges ctx := by
          rintro r ⟨⟩ labels body ⟨⟩
          exact hs
        refine Yields.atEnd.bind fun b _ => ?_
        cases b with
        | true => exact .pure hdone
        | false => exact (Yields.expectSymbol hI).bind fun _ _ => .pure hdone
  · intro labels body hs
    simp only [List.mem_filterMap, id_eq] at hs
    obtain ⟨r, hmem, rfl⟩ := hs
    exact hr _ hmem labels body rfl

omit hI in
include h in
theorem Yields.caseStatement {g : Group} {p : Position} (hg : Cursor.Fair ranges (.ofGroup g)) :
    (Parser.caseStatement ctx statement g p).Yields I (Stmt.Built ranges ctx) := by
  have hfair := Cursor.guard_fair ranges
  refine Yields.inside hg ?_
  refine (Yields.expression hfair).bind fun selector hselector => ?_
  dsimp only
  split
  · exact Yields.bind (Q := fun _ => False) Yields.fail fun _ h => h.elim
  · next ho =>
    have ho : selector.ty.isOrdinal := by simpa using ho
    refine (Yields.expectKeyword hfair (by simp)).bind fun _ _ => ?_
    refine (Yields.arms hfair h).bind fun arms harms => Yields.pos.bind fun elsePos _ => ?_
    refine (Yields.eatKeyword hfair (by simp)).bind fun b _ => ?_
    cases b with
    | true =>
      refine (Yields.statements hfair (h _ hfair)).bind fun ss hss => .pure ?_
      refine .caseOf hselector ho harms ?_
      rintro s ⟨⟩
      exact .block hss
    | false => exact .pure (.caseOf hselector ho harms (by simp))

end Nested

theorem Yields.statementWith {self : Context → Parser Stmt}
    (h : ∀ ctx, (self ctx).BuildsStmt ranges ctx) (ctx : Context) :
    (Parser.statementWith self ctx).Yields I (Stmt.Built ranges ctx) := by
  refine Yields.pos.bind fun p _ => ?_
  refine (Yields.group? hI).bind fun g hg => ?_
  cases g with
  | some g => exact Yields.block (h ctx) (hg g rfl).1
  | none =>
  refine (Yields.group? hI).bind fun g hg => ?_
  cases g with
  | some g => exact Yields.repeatLoop hI (h ctx.looping) (hg g rfl).1
  | none =>
  refine (Yields.group? hI).bind fun g hg => ?_
  cases g with
  | some g => exact Yields.caseStatement (h ctx) (hg g rfl).1
  | none =>
  refine Yields.isDone.bind fun b _ => ?_
  cases b with
  | true => exact .pure .empty
  | false =>
  refine Meets.bind (Meets.kind (I := I)) fun k => ?_
  split
  · exact Yields.skip hI (by simp [Cursor.IsMark]) (Yields.ifStatement hI (h ctx))
  · exact Yields.skip hI (by simp [Cursor.IsMark]) (Yields.whileLoop hI (h ctx.looping))
  · exact Yields.skip hI (by simp [Cursor.IsMark]) (Yields.forLoop hI (h ctx.looping))
  · exact Yields.skip hI (by simp [Cursor.IsMark]) (Yields.loopSignal .breakLoop)
  · exact Yields.skip hI (by simp [Cursor.IsMark]) (Yields.loopSignal .continueLoop)
  · exact Yields.skip hI (by simp [Cursor.IsMark]) (Yields.exitStatement hI)
  · exact (Yields.namedStatement hI)
  · exact (Yields.pure .empty).given
  · exact (Yields.pure .empty).given
  · exact (Yields.pure .empty).given
  · exact Yields.unexpected.given

end Guarded

variable (ranges ctx)

/-- What is read as a statement has been built. -/
theorem BuildsStmt.statement : (Parser.statement ctx).BuildsStmt ranges ctx := by
  have hw : ∀ n ctx, (statementWithin n ctx).BuildsStmt ranges ctx := by
    intro n
    induction n with
    | zero => exact fun ctx I hI => Yields.unexpected
    | succ n ih => exact fun ctx I hI => Yields.statementWith hI ih ctx
  exact fun I hI c _ _ hc h => hw _ ctx I hI hc h

end Pascal.Parser
