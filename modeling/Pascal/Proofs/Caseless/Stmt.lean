import Pascal.Parse.Stmt
import Pascal.Proofs.Caseless.Ty
import Pascal.Proofs.Elaboration

/-!
# Statements without regard to case

The names of functions that are assigned to, and the routines for storage that are known without a
declaration, are names like all others.
-/

namespace Pascal

open Text

namespace Context

variable (ctx : Context)

theorem ownResult?_lowered : ctx.lowered.ownResult? = ctx.ownResult? := by
  have hfunction : ctx.lowered.arena.functionOf? ctx.lowered.scope = ctx.arena.functionOf? ctx.scope :=
    ctx.arena.functionOf?_lowered ctx.scope
  rw [ownResult?, hfunction, ownResult?]
  cases ctx.arena.functionOf? ctx.scope with
  | none => rfl
  | some id =>
    have hresult : (ctx.lowered.arena.function id).signature.result =
        (ctx.arena.function id).signature.result := by
      rw [lowered, Arena.function_lowered]
      rfl
    simp only [Option.bind_eq_bind, Option.bind_some, hresult]
    rfl

theorem namedResult?_lowered (name : String) :
    ctx.lowered.namedResult? (lower name) = ctx.namedResult? name := by
  have hchain : ctx.lowered.arena.chain ctx.lowered.scope = ctx.arena.chain ctx.scope :=
    ctx.arena.chain_lowered ctx.scope
  have hfunction : ctx.lowered.arena.functionOf? = ctx.arena.functionOf? :=
    funext ctx.arena.functionOf?_lowered
  have hroutine : ctx.lowered.arena.function = fun id => (ctx.arena.function id).lowered :=
    funext ctx.arena.function_lowered
  have hname : ∀ f : UserRoutine, sameName f.lowered.name (lower name) = sameName f.name name := by
    intro f
    simp only [sameName, UserRoutine.lowered, lower_lower]
  simp only [namedResult?, hchain, hfunction, hroutine, hname]
  rfl

/-- Results are variables, which have their names in lower case. -/
theorem IsResult.lowered_eq {ctx : Context} {target : Place} {ty : Ty} (h : ctx.IsResult target ty) :
    target.lowered = target := by
  rcases h with h | ⟨name, h⟩
  · obtain ⟨id, -, h⟩ := Option.bind_eq_some_iff.mp h
    obtain ⟨ty, -, h⟩ := Option.bind_eq_some_iff.mp h
    cases h
    rfl
  · obtain ⟨scope, -, h⟩ := List.exists_of_findSome?_eq_some h
    obtain ⟨id, -, h⟩ := Option.bind_eq_some_iff.mp h
    obtain ⟨ty, -, h⟩ := Option.bind_eq_some_iff.mp h
    split at h <;> cases h
    rfl

end Context

namespace Parser.Matches

variable {ctx : Context} {inner inner' : Parser Stmt}
  (h : Matches Stmt.lowered inner inner')

theorem condition : Matches Expr.lowered (Parser.condition ctx) (Parser.condition ctx.lowered) :=
  expression.bind fun e => check (e.coerce_lowered .boolean)

theorem atEnd {stop : Token.Kind → Bool} (hstop : ∀ k, stop k.lowered = stop k) :
    Matches id (Parser.atEnd stop) (Parser.atEnd stop) := by
  refine isDone.bind_id fun b => ?_
  cases b with
  | true => exact pure true
  | false => exact (at_ hstop).bind_id fun b => pure b

section

include h

theorem statements {stop : Token.Kind → Bool} (hstop : ∀ k, stop k.lowered = stop k) :
    Matches (List.map Stmt.lowered) (Parser.statements inner stop)
      (Parser.statements inner' stop) := by
  refine Matches.bind (f := List.map (Option.map Stmt.lowered)) (repeated ?_) fun rounds =>
    pure_of_eq _ ?_
  · refine (atEnd hstop).bind_id fun b => ?_
    cases b with
    | true => exact pure none
    | false =>
      refine (eatSymbol .semicolon).bind_id fun b => ?_
      cases b with
      | true => exact pure (some none)
      | false =>
        refine h.bind fun s => (atEnd hstop).bind_id fun b => ?_
        cases b with
        | true => exact pure (some (some s))
        | false => exact (expectSymbol .semicolon).bind_id fun _ => pure (some (some s))
  · rw [List.filterMap_map, List.map_filterMap]
    rfl

theorem allStatements : Matches (List.map Stmt.lowered) (Parser.allStatements inner)
    (Parser.allStatements inner') :=
  h.statements fun _ => rfl

theorem block (g : Group) :
    Matches Stmt.lowered (Parser.block inner g) (Parser.block inner' g.lowered) :=
  (h.allStatements.inside g).bind fun body => pure_of_eq _ (by simp [Group.lowered, Token.lowered])

theorem repeatLoop (g : Group) (p : Position) :
    Matches Stmt.lowered (Parser.repeatLoop ctx inner g p)
      (Parser.repeatLoop ctx.lowered inner' g.lowered p) :=
  (h.allStatements.inside g).bind fun body => condition.bind fun c => pure_of_eq _ (by simp)

theorem ifStatement (p : Position) :
    Matches Stmt.lowered (Parser.ifStatement ctx inner p)
      (Parser.ifStatement ctx.lowered inner' p) := by
  refine condition.bind fun c => (expectKeyword .then_).bind_id fun _ => h.bind fun yes => ?_
  refine (eatKeyword .else_).bind_id fun b => ?_
  have hsome : Matches (Option.map Stmt.lowered) (some <$> inner) (some <$> inner') := h.map fun _ => rfl
  have hnone : Matches (Option.map Stmt.lowered) (Pure.pure none) (Pure.pure none) := pure none
  cases b with
  | true => exact hsome.bind fun no => pure_of_eq (Stmt.ifThen c yes no p) (by simp)
  | false => exact hnone.bind fun no => pure_of_eq (Stmt.ifThen c yes no p) (by simp)

theorem whileLoop (p : Position) :
    Matches Stmt.lowered (Parser.whileLoop ctx inner p)
      (Parser.whileLoop ctx.lowered inner' p) := by
  refine condition.bind fun c => (expectKeyword .do_).bind_id fun _ => h.bind fun body => ?_
  exact pure_of_eq _ (by simp)

omit h in
theorem direction : Matches id Parser.direction Parser.direction := by
  refine (eatKeyword .to_).bind_id fun b => ?_
  cases b with
  | true => exact pure _
  | false =>
    refine (eatKeyword .downto).bind_id fun b => ?_
    cases b with
    | true => exact pure _
    | false => exact unexpected _

theorem forLoop (p : Position) :
    Matches Stmt.lowered (Parser.forLoop ctx inner p)
      (Parser.forLoop ctx.lowered inner' p) := by
  refine (designator false).bind fun counter => ?_
  rw [counter.ty_lowered, counter.pos_lowered, counter.place?_lowered]
  dsimp only
  split
  · exact fail rfl
  · cases counter.place? with
    | none => exact fail rfl
    | some target =>
      cases target with
      | var v =>
        refine (expectSymbol .assign).bind_id fun _ => expression.bind fun first => ?_
        refine (check (first.coerce_lowered _)).bind fun first => direction.bind_id fun d => ?_
        refine expression.bind fun last => (check (last.coerce_lowered _)).bind fun last => ?_
        refine (expectKeyword .do_).bind_id fun _ => h.bind fun body => ?_
        exact pure_of_eq _ (by simp)
      | _ => exact fail rfl

omit h in
theorem label (ctx : Context) (selector : Ty) :
    Matches id (Parser.label ctx selector) (Parser.label ctx.lowered selector) := by
  refine expression.bind fun e => (check (e.evaluateAs_lowered selector)).bind_id fun low => ?_
  refine (eatSymbol .dotDot).bind_id fun b => ?_
  cases b with
  | true =>
    refine expression.bind fun e => (check (e.evaluateAs_lowered selector)).bind_id fun high => ?_
    exact pure _
  | false => exact pure _

theorem arms (selector : Ty) :
    Matches (List.map Arm.lowered) (Parser.arms ctx inner selector)
      (Parser.arms ctx.lowered inner' selector) := by
  have hend : Matches id (Parser.atEnd (·.isKeyword .else_)) (Parser.atEnd (·.isKeyword .else_)) :=
    atEnd fun k => k.isKeyword_lowered .else_
  have hlabels := (commaSeparated (label ctx selector)).of_map_id
  refine Matches.bind (f := List.map (Option.map Arm.lowered)) (repeated ?_) fun rounds =>
    pure_of_eq _ ?_
  · refine hend.bind_id fun b => ?_
    cases b with
    | true => exact pure none
    | false =>
      refine (eatSymbol .semicolon).bind_id fun b => ?_
      cases b with
      | true => exact pure (some none)
      | false =>
        refine hlabels.bind_id fun labels => (expectSymbol .colon).bind_id fun _ => ?_
        refine h.bind fun body => hend.bind_id fun b => ?_
        cases b with
        | true => exact pure_of_eq (some (some (Arm.mk labels body))) (by simp)
        | false =>
          refine (expectSymbol .semicolon).bind_id fun _ => ?_
          exact pure_of_eq (some (some (Arm.mk labels body))) (by simp)
  · rw [List.filterMap_map, List.map_filterMap]
    rfl

theorem caseStatement (g : Group) (p : Position) :
    Matches Stmt.lowered (Parser.caseStatement ctx inner g p)
      (Parser.caseStatement ctx.lowered inner' g.lowered p) := by
  refine inside (expression.bind fun selector => ?_) g
  rw [selector.ty_lowered, selector.pos_lowered]
  dsimp only
  split
  · exact fail rfl
  · refine (expectKeyword .of).bind_id fun _ => (h.arms selector.ty).bind fun arms => ?_
    refine pos.bind_id fun elsePos => (eatKeyword .else_).bind_id fun b => ?_
    cases b with
    | true => exact h.allStatements.bind fun body => pure_of_eq _ (by simp)
    | false => exact pure_of_eq _ (by simp)

end

theorem loopSignal (s : Stmt) (name : String) (p : Position) (hs : s.lowered = s) :
    Matches Stmt.lowered (Parser.loopSignal ctx s name p) (Parser.loopSignal ctx.lowered s name p) := by
  cases hloop : ctx.inLoop with
  | true =>
    simp only [Parser.loopSignal, Context.lowered, hloop, if_true]
    exact pure_of_eq _ hs.symm
  | false =>
    simp only [Parser.loopSignal, Context.lowered, hloop]
    exact fail rfl

theorem exitStatement (p : Position) :
    Matches Stmt.lowered (Parser.exitStatement ctx p) (Parser.exitStatement ctx.lowered p) := by
  refine (group? .paren).bind fun g => ?_
  cases g with
  | none => exact pure_of_eq _ (by simp)
  | some g =>
    have hempty : g.lowered.items.isEmpty = g.items.isEmpty := List.isEmpty_map
    dsimp only [Option.map_some]
    rw [hempty, Context.ownResult?_lowered]
    split
    · exact pure_of_eq _ (by simp)
    · cases hresult : ctx.ownResult? with
      | none => exact fail rfl
      | some found =>
        obtain ⟨target, ty⟩ := found
        have htarget : target.lowered = target := Context.IsResult.lowered_eq (.inl hresult)
        refine (expression.inside g).bind fun e => (check (e.coerce_lowered ty)).bind fun value => ?_
        exact pure_of_eq (Stmt.block [.assign target value p, .exitRoutine p] p) (by simp [htarget])

theorem allocation (name : String) (g : Group) :
    Matches (Prod.map Place.lowered id) (Parser.allocation ctx name g)
      (Parser.allocation ctx.lowered name g.lowered) := by
  refine ((designator false).inside g).bind fun target => ?_
  rw [target.ty_lowered, target.place?_lowered, target.pos_lowered]
  generalize target.ty = ty
  cases target.place? with
  | none =>
    cases ty <;> exact fail rfl
  | some p =>
    cases ty with
    | pointer pointee => exact pure (p, pointee)
    | _ => exact fail rfl

theorem assignmentOrCall (name : String) (p : Position) :
    Matches Stmt.lowered (Parser.assignmentOrCall ctx name p)
      (Parser.assignmentOrCall ctx.lowered (lower name) p) := by
  refine (designator true).bind fun target => (eatSymbol .assign).bind_id fun b => ?_
  cases b with
  | true =>
    refine expression.bind fun value => ?_
    rw [target.place?_lowered, target.ty_lowered]
    cases target.place? with
    | none => exact fail rfl
    | some place =>
      exact (check (value.coerce_lowered _)).bind fun value => pure_of_eq _ (by simp)
  | false =>
    cases target with
    | call callee name args n => exact pure_of_eq _ (by simp)
    | format v w q n => cases q <;> exact unexpected _
    | _ => exact unexpected _

theorem namedStatement (name : String) (p : Position) :
    Matches Stmt.lowered (Parser.namedStatement ctx name p)
      (Parser.namedStatement ctx.lowered (lower name) p) := by
  refine kindAfter?.bind fun k => ?_
  have hassigns : (k.map Token.Kind.lowered).any (·.isSymbol .assign) = k.any (·.isSymbol .assign) := by
    cases k with
    | none => rfl
    | some k => exact k.isSymbol_lowered .assign
  dsimp only
  rw [hassigns, Context.namedResult?_lowered, lower_lower, Context.lookup?_lowered, Option.isNone_map]
  cases hown : if k.any (·.isSymbol .assign) then ctx.namedResult? name else none with
  | some found =>
    obtain ⟨target, ty⟩ := found
    have htarget : target.lowered = target := by
      split at hown
      · exact Context.IsResult.lowered_eq (.inr ⟨name, hown⟩)
      · cases hown
    refine skip.bind_id fun _ => skip.bind_id fun _ => expression.bind fun e => ?_
    refine (check (e.coerce_lowered ty)).bind fun value => ?_
    exact pure_of_eq (Stmt.assign target value p) (by simp [htarget])
  | none =>
    dsimp only
    split
    · refine skip.bind_id fun _ => (group .paren).bind fun g => ?_
      refine (allocation _ g).bind fun found => ?_
      obtain ⟨target, pointee⟩ := found
      dsimp only
      split
      · exact pure_of_eq _ (by simp)
      · exact pure_of_eq _ (by simp)
    · exact assignmentOrCall name p

theorem statementWith {self self' : Context → Parser Stmt}
    (hself : ∀ ctx : Context, Matches Stmt.lowered (self ctx) (self' ctx.lowered)) :
    Matches Stmt.lowered (Parser.statementWith self ctx) (Parser.statementWith self' ctx.lowered) := by
  have hbody := hself { ctx with inLoop := true }
  refine pos.bind_id fun p => (group? .begin_).bind fun g => ?_
  cases g with
  | some g => exact (hself ctx).block g
  | none =>
    refine (group? .repeat_).bind fun g => ?_
    cases g with
    | some g => exact hbody.repeatLoop g p
    | none =>
      refine (group? .case).bind fun g => ?_
      cases g with
      | some g => exact (hself ctx).caseStatement g p
      | none =>
        refine isDone.bind_id fun b => ?_
        cases b with
        | true => exact pure_of_eq _ (by simp)
        | false =>
          refine kinds (fun name => namedStatement name p) fun k hk => ?_
          rcases k with _ | k
          · exact unexpected _
          · cases k with
            | identifier name => exact absurd rfl (hk name)
            | keyword w =>
              cases w with
              | if_ => exact skip.bind_id fun _ => (hself ctx).ifStatement p
              | while_ => exact skip.bind_id fun _ => hbody.whileLoop p
              | for_ => exact skip.bind_id fun _ => hbody.forLoop p
              | break_ => exact skip.bind_id fun _ => loopSignal _ _ p (by simp)
              | continue_ => exact skip.bind_id fun _ => loopSignal _ _ p (by simp)
              | exit => exact skip.bind_id fun _ => exitStatement p
              | else_ | until_ => exact pure_of_eq _ (by simp)
              | _ => exact unexpected _
            | symbol s =>
              cases s with
              | semicolon => exact pure_of_eq _ (by simp)
              | _ => exact unexpected _
            | _ => exact unexpected _

theorem statement (ctx : Context) :
    Matches Stmt.lowered (Parser.statement ctx) (Parser.statement ctx.lowered) := by
  have hwithin : ∀ n ctx, Matches Stmt.lowered (statementWithin n ctx) (statementWithin n ctx.lowered) := by
    intro n
    induction n with
    | zero => exact fun _ => unexpected _
    | succ n ih => exact fun _ => statementWith ih
  intro c
  have hweights : Item.weights c.lowered.items = Item.weights c.items := Item.weights_lowered c.items
  rw [Parser.statement, Parser.statement, hweights]
  exact hwithin _ _ c

end Parser.Matches

end Pascal
