import Pascal.Proofs.Elaboration
import Pascal.Proofs.Parse.Yield
import Pascal.Proofs.Typing.Build

/-! # Every expression that is read has been built -/

namespace Pascal

namespace Context

/-- Only routines are found differently in front of arguments. -/
theorem lookup?_of_meaning? {ctx : Context} {name : String} {called : Bool} {m : Meaning}
    (h : ctx.meaning? name called = some m) (hm : ∀ cs, m ≠ .routines cs) :
    ctx.lookup? name = some m := by
  unfold Context.meaning? at h
  cases called with
  | false => simpa using h
  | true =>
    simp only [if_true, Option.or_eq_some_iff] at h
    rcases h with h | h
    · unfold Arena.lookupRoutine? at h
      obtain ⟨cs, -, rfl⟩ := Option.map_eq_some_iff.mp h
      exact absurd rfl (hm cs)
    · exact h.2

end Context

namespace Expr.Built

variable {ranges : Bool} {ctx : Context}

/-- A call can only have been built as one. -/
theorem call_inv {callee : Callee} {callee' : String} {bound : List Arg} {note : Note}
    (h : Expr.Built ranges ctx (.call callee callee' bound note)) :
    ∃ name args p result, (∀ e ∈ args, e.Built ranges ctx) ∧
      ctx.arena.resolveCall ctx.scope name args p = .ok (callee, bound, result) := by
  cases h with
  | call hargs h => exact ⟨_, _, _, _, hargs, h⟩
  | indexed _ _ h => obtain ⟨-, q, -, ⟨_, _, -, he⟩ | ⟨-, he⟩⟩ := Expr.indexed_eq_ok h <;> cases he
  | dereferenced _ h => obtain ⟨_, -, he⟩ := Expr.dereferenced_eq_ok h; cases he
  | address _ h => obtain ⟨_, _, -, he⟩ := Expr.addressOf_eq_ok h; cases he
  | unary _ h => cases (Expr.applyUnary_eq_ok h).2
  | binary _ _ h => obtain ⟨_, _, _, -, he⟩ := Expr.applyBinary_eq_ok h; cases he
  | array _ _ h => obtain ⟨_, _, -, -, he⟩ := SetItem.construct_eq_ok h; cases he

theorem applyPlus {e e' : Expr} {p : Position} (he : e.Built ranges ctx)
    (h : e.applyPlus p = .ok e') : e'.Built ranges ctx := by
  unfold Expr.applyPlus at h
  split at h
  · cases h; exact he
  · cases h

theorem applySigns {signs : List (Sign × Position)} {e e' : Expr} (he : e.Built ranges ctx)
    (h : Parser.applySigns signs e = .ok e') : e'.Built ranges ctx := by
  induction signs generalizing e' with
  | nil => cases h; exact he
  | cons s signs ih =>
    obtain ⟨s, p⟩ := s
    cases hr : Parser.applySigns signs e with
    | error err => simp [Parser.applySigns, hr, Bind.bind, Except.bind] at h
    | ok r =>
      simp only [Parser.applySigns, hr, Bind.bind, Except.bind] at h
      cases s with
      | op u => exact .unary (ih hr) h
      | plus => exact (ih hr).applyPlus h

end Expr.Built

/-- What a name with its arguments can stand for where a statement may follow: an expression, or the call
of a routine without a result. -/
inductive Expr.Designated (ranges : Bool) (ctx : Context) : Expr → Prop where
  | expression {e : Expr} (h : e.Built ranges ctx) : Designated ranges ctx e
  | procedure {name : String} {args : List Expr} {p : Position} {callee : Callee}
      {bound : List Arg} {note : Note} (hargs : ∀ e ∈ args, e.Built ranges ctx)
      (h : ctx.arena.resolveCall ctx.scope name args p = .ok (callee, bound, none)) :
      Designated ranges ctx (.call callee (ctx.arena.calleeName callee) bound note)

namespace Parser

variable {ranges : Bool} {ctx : Context} {I : Cursor → Prop}

/-- Reads expressions that have been built, at every cursor. -/
def Builds (ranges : Bool) (ctx : Context) (p : Parser Expr) : Prop :=
  ∀ I, Cursor.Guard ranges I → p.Yields I (Expr.Built ranges ctx)

theorem Yields.known? {α : Type} {f : Token.Kind → Option α} (hI : Cursor.Guard ranges I)
    (hf : f (.keyword .array) = none ∧ f (.keyword .uses) = none) :
    (Parser.known? f).Yields I (fun a => ∀ x, a = some x → ∃ k, f k = some x.1) := by
  refine Meets.bind (Meets.kind (I := I)) fun k => ?_
  cases hk : k.bind f with
  | none => exact Meets.pure fun c hc => ⟨by simp, hc.1⟩
  | some a =>
    obtain ⟨k, rfl, ha⟩ := Option.bind_eq_some_iff.mp hk
    have hpos : Parser.pos.Meets (fun c => I c ∧ c.kind? = some k)
        (fun _ c => I c ∧ c.kind? = some k) := by
      intro c p c' hc h
      cases h
      exact hc
    have hne : ¬Cursor.IsMark (some k) := by
      rintro (⟨⟨⟩⟩ | ⟨⟨⟩⟩)
      · rw [hf.1] at ha
        cases ha
      · rw [hf.2] at ha
        cases ha
    refine hpos.bind fun p => (Meets.skip hI hne).bind fun _ => Meets.pure fun c hc => ⟨?_, hc⟩
    rintro x ⟨⟩
    exact ⟨k, ha⟩

theorem Builds.chain {op? : Token.Kind → Option BinaryOp} {operand : Parser Expr}
    (hop : op? (.keyword .array) = none ∧ op? (.keyword .uses) = none) (h : operand.Builds ranges ctx) :
    (Parser.chain op? operand).Builds ranges ctx := by
  intro I hI
  refine (h I hI).bind fun first hfirst => Yields.iterate hfirst fun left hleft => ?_
  refine (Yields.known? hI hop).bind fun found _ => ?_
  match found with
  | none => exact .pure (by simp)
  | some (op, p) =>
    refine (h I hI).bind fun right hright => Yields.check.bind fun e he => .pure ?_
    rintro e' ⟨⟩
    exact .binary hleft hright he

theorem Builds.signed {operand : Parser Expr} (h : operand.Builds ranges ctx) :
    (Parser.signed operand).Builds ranges ctx := by
  intro I hI
  refine (Yields.repeated (Q := fun _ => True) ?_).bind fun signs _ => ?_
  · exact (Yields.known? hI ⟨rfl, rfl⟩).mono (by simp)
  · exact (h I hI).bind fun e he => Yields.check.mono fun e' h => he.applySigns h

section Inner

variable {expression : Parser Expr} (h : expression.Builds ranges ctx)

include h

theorem Yields.setItem :
    (Parser.setItem expression).Yields (Cursor.Single ranges) (fun i =>
      (∀ e ∈ i.ends, e.Built ranges ctx) ∧ (ranges = false → i.isSingle)) := by
  have hI := Cursor.guard_single ranges
  refine (h _ hI).bind fun low hlow => ?_
  have hdots : (Parser.eatSymbol .dotDot).Yields (Cursor.Single ranges)
      (fun b => ranges = false → b = false) := by
    intro c b c' hc hr
    refine ⟨fun hf => ?_, (Yields.eatSymbol hI hc hr).2⟩
    cases b with
    | false => rfl
    | true =>
      exfalso
      have hn := hc.2 hf
      cases hitems : c.items with
      | nil => simp [Parser.eatSymbol, Parser.atSymbol, Parser.at_, Parser.kind?, Cursor.kind?, hitems,
          Bind.bind, StateT.bind, Except.bind, pure_apply] at hr
      | cons i is =>
        simp only [hitems, List.any_cons, Bool.or_eq_false_iff] at hn
        cases i <;>
          simp_all [Parser.eatSymbol, Parser.atSymbol, Parser.at_, Parser.kind?, Cursor.kind?, Bind.bind,
            StateT.bind, Except.bind, pure_apply, Item.isDots]
  refine hdots.bind fun b hb => ?_
  cases b with
  | true =>
    refine (h _ hI).bind fun high hhigh => .pure ⟨?_, fun hf => by cases hb hf⟩
    simpa [SetItem.ends] using ⟨hlow, hhigh⟩
  | false => exact .pure ⟨by simpa [SetItem.ends] using hlow, fun _ => rfl⟩

theorem Builds.argument : (Parser.argument expression).Builds ranges ctx := by
  intro I hI
  refine (h I hI).bind fun value hvalue => (Yields.eatSymbol hI).bind fun b _ => ?_
  cases b with
  | false => exact .pure hvalue
  | true =>
    refine (h I hI).bind fun width hwidth => Yields.check.bind fun width' hw => ?_
    refine (Yields.eatSymbol hI).bind fun b _ => ?_
    cases b with
    | false => exact .pure (.format hvalue hwidth hw)
    | true =>
      refine (h I hI).bind fun precision hprecision => Yields.check.bind fun precision' hp => ?_
      exact .pure (.formatReal hvalue hwidth hw hprecision hp)

theorem Yields.indices {base : Expr} (hI : Cursor.Guard ranges I) (hbase : base.Built ranges ctx) :
    (Parser.indices expression base).Yields I (Expr.Built ranges ctx) := by
  refine (h I hI).bind fun index hindex => Yields.check.bind fun first hfirst => ?_
  refine Yields.iterate (.indexed hbase hindex hfirst) fun e he => ?_
  refine (Yields.eatSymbol hI).bind fun b _ => ?_
  cases b with
  | false => exact .pure (by simp)
  | true =>
    refine (h I hI).bind fun index hindex => Yields.check.bind fun e' he' => .pure ?_
    rintro e'' ⟨⟩
    exact .indexed he hindex he'

theorem Yields.suffix? {e : Expr} (hI : Cursor.Guard ranges I) (he : e.Built ranges ctx) :
    (Parser.suffix? expression e).Yields I (fun r => ∀ e', r = some e' → e'.Built ranges ctx) := by
  refine (Yields.group? hI).bind fun g hg => ?_
  cases g with
  | some g =>
    refine (Yields.inside (hg g rfl).1 (Yields.indices h (Cursor.guard_fair ranges) he)).bind ?_
    intro e' he'
    exact .pure (by simpa using he')
  | none =>
    refine Yields.pos.bind fun p _ => (Yields.eatSymbol hI).bind fun b _ => ?_
    cases b with
    | false => exact .pure (by simp)
    | true =>
      refine Yields.check.bind fun e' he' => .pure ?_
      rintro e'' ⟨⟩
      exact .dereferenced he he'

theorem Yields.suffixes {e : Expr} (hI : Cursor.Guard ranges I) (he : e.Built ranges ctx) :
    (Parser.suffixes expression e).Yields I (Expr.Built ranges ctx) :=
  Yields.iterate he fun _ he => Yields.suffix? h hI he

/-- A call with arguments that have been read. -/
private theorem call_yields {name : String} {p : Position} {args : List Expr} {asStatement : Bool}
    (hI : Cursor.Guard ranges I) (hargs : ∀ e ∈ args, e.Built ranges ctx) :
    Parser.Yields I (do
      let (callee, args, result) ← Parser.check (ctx.arena.resolveCall ctx.scope name args p)
      let call := Expr.call callee (ctx.arena.calleeName callee) args
      match result with
      | some ty => Parser.suffixes expression (call ⟨ty, p⟩)
      | none =>
        if asStatement then return call ⟨.nil, p⟩
        else Parser.fail (.type (.noValue name p)))
      (fun e => e.Designated ranges ctx ∧ (asStatement = false → e.Built ranges ctx)) := by
  refine Yields.check.bind ?_
  rintro ⟨callee, bound, result⟩ hcall
  cases result with
  | some ty =>
    exact (Yields.suffixes h hI (.call hargs hcall)).mono fun e he => ⟨.expression he, fun _ => he⟩
  | none =>
    cases asStatement with
    | true => exact .pure ⟨.procedure hargs hcall, by simp⟩
    | false => exact Yields.fail

theorem Yields.designatorWith {asStatement : Bool} (hI : Cursor.Guard ranges I) :
    (Parser.designatorWith ctx expression asStatement).Yields I (fun e =>
      e.Designated ranges ctx ∧ (asStatement = false → e.Built ranges ctx)) := by
  refine (Yields.identifier hI).bind fun (name, p) _ => Yields.peekGroup?.bind fun g _ => ?_
  dsimp only
  cases hm : ctx.meaning? name g.isSome with
  | none => exact Yields.fail
  | some m =>
    cases m with
    | routines cs =>
      refine (Yields.group? hI).bind fun g hg => ?_
      cases g with
      | some g =>
        exact (Yields.inside (hg g rfl).1 (Yields.commaList (Cursor.guard_fair ranges)
          (Builds.argument h _ (Cursor.guard_fair ranges)))).bind fun args hargs =>
            call_yields h hI hargs
      | none => exact Yields.bind (Q := fun args => args = []) (Yields.pure rfl) fun args hargs =>
          call_yields h hI (by simp [hargs])
    | constant c =>
      have hl := Context.lookup?_of_meaning? hm (by simp)
      dsimp only
      split
      · exact Yields.fail
      · exact (Yields.suffixes h hI (.constant p hl)).mono fun e he => ⟨.expression he, fun _ => he⟩
    | var v ty =>
      have hl := Context.lookup?_of_meaning? hm (by simp)
      dsimp only
      split
      · exact Yields.fail
      · exact (Yields.suffixes h hI (.variable p hl)).mono fun e he => ⟨.expression he, fun _ => he⟩

theorem Builds.primary : (Parser.primary ctx expression).Builds ranges ctx := by
  intro I hI
  have hfair := Cursor.guard_fair ranges
  refine Yields.pos.bind fun p _ => (Yields.group? hI).bind fun g hg => ?_
  cases g with
  | some g => exact Yields.inside (hg g rfl).1 (h _ hfair)
  | none =>
    refine (Yields.group? hI).bind fun g hg => ?_
    cases g with
    | some g =>
      refine (Yields.inside ((hg g rfl).2 rfl) (Yields.commaList (Cursor.guard_single ranges)
        (Yields.setItem h))).bind fun items hitems => Yields.check.mono fun e he => ?_
      exact .array (fun i hi => (hitems i hi).1) (fun hf i hi => (hitems i hi).2 hf) he
    | none =>
      refine Meets.bind (Meets.kind (I := I)) fun k => ?_
      split
      · exact Yields.unexpected.given
      · exact ((Yields.designatorWith h hI).mono fun e he => he.2 rfl).given
      · refine Yields.skip hI (by simp [Cursor.IsMark]) ?_
        exact (Yields.designatorWith h hI).bind fun target ht =>
          Yields.check.mono fun e he => .address (ht.2 rfl) he
      · next k _ _ =>
        split
        · exact Yields.unexpected.given
        · next v ty hk =>
          refine Yields.skip hI ?_ (.pure (.token p hk))
          rintro (⟨⟨⟩⟩ | ⟨⟨⟩⟩) <;> cases hk

theorem Builds.comparison : (Parser.comparison ctx expression).Builds ranges ctx := by
  intro I hI
  have hterm : (Parser.chain BinaryOp.multiplicative?
      (Parser.signed (Parser.primary ctx expression))).Builds ranges ctx :=
    Builds.chain ⟨rfl, rfl⟩ (Builds.signed (Builds.primary h))
  have hside : (Parser.chain BinaryOp.additive? (Parser.chain BinaryOp.multiplicative?
      (Parser.signed (Parser.primary ctx expression)))).Builds ranges ctx := Builds.chain ⟨rfl, rfl⟩ hterm
  refine (hside I hI).bind fun left hleft => (Yields.known? hI ⟨rfl, rfl⟩).bind fun found _ => ?_
  match found with
  | none => exact .pure hleft
  | some (op, p) =>
    exact (hside I hI).bind fun right hright => Yields.check.mono fun e he => .binary hleft hright he

end Inner

variable (ranges ctx)

/-- What is read as an expression has been built. -/
theorem Builds.expression : (Parser.expression ctx).Builds ranges ctx := by
  have hw : ∀ n, (expressionWithin ctx n).Builds ranges ctx := by
    intro n
    induction n with
    | zero => exact fun I hI => Yields.unexpected
    | succ n ih => exact Builds.comparison ih
  exact fun I hI c _ _ hc h => hw _ I hI hc h

theorem Yields.designator {asStatement : Bool} (hI : Cursor.Guard ranges I) :
    (Parser.designator ctx asStatement).Yields I (fun e =>
      e.Designated ranges ctx ∧ (asStatement = false → e.Built ranges ctx)) :=
  Yields.designatorWith (Builds.expression ranges ctx) hI

end Parser

end Pascal
