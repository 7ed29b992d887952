import Pascal.Parse.Expr
import Pascal.Proofs.Caseless.Cursor
import Pascal.Proofs.Caseless.Lookup

/-!
# Expressions without regard to case

An expression is read in lower case, where names mean the same in lower case, as the expression in lower
case.
-/

namespace Pascal

open Text

namespace Item

mutual

theorem weight_lowered : ∀ i : Item, i.lowered.weight = i.weight
  | .token _ => rfl
  | .error _ => rfl
  | .group _ _ _ items => by rw [Item.lowered, weight, weight, weights_loweredItems items]

theorem weights_loweredItems : ∀ items : List Item, weights (loweredItems items) = weights items
  | [] => rfl
  | i :: is => by rw [loweredItems, weights, weights, weight_lowered i, weights_loweredItems is]

end

theorem weights_lowered (items : List Item) : weights (items.map Item.lowered) = weights items := by
  rw [← loweredItems_eq, weights_loweredItems]

end Item

namespace Context

def lowered (ctx : Context) : Context := { ctx with arena := ctx.arena.lowered }

variable (ctx : Context)

theorem lookup?_lowered (name : String) :
    ctx.lowered.lookup? (lower name) = (ctx.lookup? name).map Meaning.lowered :=
  ctx.arena.lookup?_lowered ctx.scope name

theorem meaning?_lowered (name : String) (called : Bool) :
    ctx.lowered.meaning? (lower name) called = (ctx.meaning? name called).map Meaning.lowered := by
  cases called with
  | false => exact ctx.lookup?_lowered name
  | true =>
    have hroutine : ctx.lowered.arena.lookupRoutine? ctx.lowered.scope (lower name) =
        (ctx.arena.lookupRoutine? ctx.scope name).map Meaning.lowered :=
      ctx.arena.lookupRoutine?_lowered ctx.scope name
    simp only [meaning?, if_true, hroutine, lookup?_lowered]
    cases ctx.arena.lookupRoutine? ctx.scope name <;> rfl

end Context

namespace Parser.Matches

variable {α : Type} {inner inner' : Parser Expr}
  (h : Matches Expr.lowered inner inner') {ctx : Context}

theorem known? {f : Token.Kind → Option α} (hf : ∀ k, f k.lowered = f k) :
    Matches id (Parser.known? f) (Parser.known? f) := by
  refine kind?.bind fun k => ?_
  have hsame : (k.map Token.Kind.lowered).bind f = k.bind f := by
    cases k with
    | none => rfl
    | some k => exact hf k
  rw [hsame]
  cases k.bind f with
  | none => exact pure none
  | some a => exact pos.bind_id fun p => skip.bind_id fun _ => pure (some (a, p))

section

include h

theorem chain {op? : Token.Kind → Option BinaryOp} (hop : ∀ k, op? k.lowered = op? k) :
    Matches Expr.lowered (Parser.chain op? inner) (Parser.chain op? inner') := by
  refine h.bind fun first => iterate (fun left => ?_) first
  refine (known? hop).bind_id fun found => ?_
  cases found with
  | none => exact pure none
  | some found =>
    refine h.bind fun right => ?_
    exact (check (left.applyBinary_lowered found.1 right found.2)).bind fun e => pure (some e)

theorem signed : Matches Expr.lowered (Parser.signed inner) (Parser.signed inner') := by
  have hsigns : ∀ (signs : List (Sign × Position)) (e : Expr),
      Checked.Matches Expr.lowered (applySigns signs e) (applySigns signs e.lowered) := by
    intro signs e
    induction signs with
    | nil => exact .ok e
    | cons sign signs ih =>
      refine ih.bind fun e => ?_
      cases sign.1 with
      | op u => exact e.applyUnary_lowered u sign.2
      | plus => exact e.applyPlus_lowered sign.2
  have hofKind : ∀ k : Token.Kind, Sign.ofKind? k.lowered = Sign.ofKind? k := by
    intro k
    cases k <;> rfl
  have hrepeated : Matches id (Parser.repeated (Parser.known? Sign.ofKind?))
      (Parser.repeated (Parser.known? Sign.ofKind?)) := by
    have hr := repeated (f := id) (by simpa using known? hofKind)
    simpa using hr
  exact hrepeated.bind_id fun signs => h.bind fun e => check (hsigns signs e)

theorem setItem : Matches SetItem.lowered (Parser.setItem inner) (Parser.setItem inner') := by
  refine h.bind fun low => (eatSymbol .dotDot).bind_id fun b => ?_
  cases b with
  | true => exact h.bind fun high => pure (SetItem.range low high)
  | false => exact pure (SetItem.single low)

theorem argument : Matches Expr.lowered (Parser.argument inner) (Parser.argument inner') := by
  refine h.bind fun value => (eatSymbol .colon).bind_id fun b => ?_
  cases b with
  | false => exact pure value
  | true =>
    refine h.bind fun width => (check (width.coerce_lowered .integer)).bind fun width => ?_
    refine (eatSymbol .colon).bind_id fun b => ?_
    cases b with
    | false => exact pure_of_eq _ (by simp)
    | true =>
      refine h.bind fun precision => (check (precision.coerce_lowered .integer)).bind fun precision => ?_
      exact pure_of_eq _ (by simp)

theorem indices (base : Expr) :
    Matches Expr.lowered (Parser.indices inner base)
      (Parser.indices inner' base.lowered) := by
  refine h.bind fun index => (check (base.indexed_lowered index)).bind fun first => ?_
  refine iterate (fun e => (eatSymbol .comma).bind_id fun b => ?_) first
  cases b with
  | false => exact pure none
  | true =>
    refine h.bind fun index => (check (e.indexed_lowered index)).bind fun e => ?_
    exact pure (some e)

theorem suffix? (e : Expr) :
    Matches (Option.map Expr.lowered) (Parser.suffix? inner e)
      (Parser.suffix? inner' e.lowered) := by
  refine (group? .bracket).bind fun g => ?_
  cases g with
  | some g => exact ((h.indices e).inside g).bind fun e => pure (some e)
  | none =>
    refine pos.bind_id fun p => (eatSymbol .caret).bind_id fun b => ?_
    cases b with
    | true => exact (check (e.dereferenced_lowered p)).bind fun e => pure (some e)
    | false => exact pure none

theorem suffixes (e : Expr) :
    Matches Expr.lowered (Parser.suffixes inner e) (Parser.suffixes inner' e.lowered) :=
  iterate h.suffix? e

theorem designatorWith (asStatement : Bool) :
    Matches Expr.lowered (Parser.designatorWith ctx inner asStatement)
      (Parser.designatorWith ctx.lowered inner' asStatement) := by
  refine identifier.bind fun found => (peekGroup? .paren).bind fun g => ?_
  obtain ⟨name, p⟩ := found
  dsimp only [Prod.map_apply, id_eq]
  rw [Option.isSome_map, Context.meaning?_lowered]
  cases ctx.meaning? name g.isSome with
  | none => exact fail rfl
  | some m =>
    cases m with
    | routines callees =>
      have hlowered : ∀ callee args n, (Expr.call callee (ctx.arena.calleeName callee) args n).lowered =
          .call callee (ctx.lowered.arena.calleeName callee) (args.map Arg.lowered) n := by
        intro callee args n
        rw [Expr.lowered, loweredArgs_eq, ← Arena.calleeName_lowered]
        rfl
      have hnone : Matches (List.map Expr.lowered) (Pure.pure []) (Pure.pure []) := pure []
      refine (group? .paren).bind fun g => ?_
      cases g
      case' none => refine hnone.bind fun args => ?_
      case' some g => refine ((commaList h.argument).inside g).bind fun args => ?_
      all_goals
        refine (check (ctx.arena.resolveCall_lowered ctx.scope name args p)).bind fun found => ?_
        obtain ⟨callee, args, result⟩ := found
        cases result with
        | some ty =>
          have hs := h.suffixes (.call callee (ctx.arena.calleeName callee) args ⟨ty, p⟩)
          rw [hlowered] at hs
          exact hs
        | none =>
          cases asStatement with
          | true => exact pure_of_eq _ (hlowered callee args ⟨.nil, p⟩).symm
          | false => exact fail rfl
    | constant c =>
      cases g with
      | none => exact h.suffixes (.literal c.value ⟨c.ty, p⟩)
      | some g => exact fail rfl
    | var v ty =>
      cases g with
      | none => exact h.suffixes (.place (.var v) ⟨ty, p⟩)
      | some g => exact fail rfl

theorem primary (ctx : Context) : Matches Expr.lowered (Parser.primary ctx inner)
    (Parser.primary ctx.lowered inner') := by
  refine pos.bind_id fun p => (group? .paren).bind fun g => ?_
  cases g with
  | some g => exact h.inside g
  | none =>
    refine (group? .bracket).bind fun g => ?_
    cases g with
    | some g =>
      refine ((commaList h.setItem).inside g).bind fun items => ?_
      exact check (SetItem.construct_lowered items p)
    | none =>
      refine kinds (fun name => h.designatorWith false) fun k hk => ?_
      rcases k with _ | k
      · exact unexpected _
      · cases k with
        | identifier name => exact absurd rfl (hk name)
        | keyword w =>
          cases w <;> first
            | exact unexpected _
            | exact skip.bind_id fun _ => pure_of_eq _ (by simp)
        | symbol s =>
          cases s with
          | atSign =>
            exact skip.bind_id fun _ => (h.designatorWith false).bind fun target =>
              check (target.addressOf_lowered p)
          | _ => exact unexpected _
        | includes name => exact unexpected _
        | eof => exact unexpected _
        | _ => exact skip.bind_id fun _ => pure_of_eq _ (by simp)

theorem comparison : Matches Expr.lowered (Parser.comparison ctx inner)
    (Parser.comparison ctx.lowered inner') := by
  have hrelational : ∀ k : Token.Kind, BinaryOp.relational? k.lowered = BinaryOp.relational? k := by
    intro k
    cases k <;> rfl
  have hadditive : ∀ k : Token.Kind, BinaryOp.additive? k.lowered = BinaryOp.additive? k := by
    intro k
    cases k <;> rfl
  have hmultiplicative : ∀ k : Token.Kind,
      BinaryOp.multiplicative? k.lowered = BinaryOp.multiplicative? k := by
    intro k
    cases k <;> rfl
  have hside := ((h.primary ctx).signed.chain hmultiplicative).chain hadditive
  refine hside.bind fun left => (known? hrelational).bind_id fun found => ?_
  cases found with
  | none => exact pure left
  | some found =>
    exact hside.bind fun right => check (left.applyBinary_lowered found.1 right found.2)

end

theorem expression : Matches Expr.lowered (Parser.expression ctx) (Parser.expression ctx.lowered) := by
  have hwithin : ∀ n, Matches Expr.lowered (expressionWithin ctx n) (expressionWithin ctx.lowered n) := by
    intro n
    induction n with
    | zero => exact unexpected _
    | succ n ih => exact ih.comparison
  intro c
  have hweights : Item.weights c.lowered.items = Item.weights c.items := Item.weights_lowered c.items
  rw [Parser.expression, Parser.expression, hweights]
  exact hwithin _ c

theorem designator (asStatement : Bool) :
    Matches Expr.lowered (Parser.designator ctx asStatement)
      (Parser.designator ctx.lowered asStatement) :=
  expression.designatorWith asStatement

end Parser.Matches

end Pascal
