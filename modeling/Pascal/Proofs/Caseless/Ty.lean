import Pascal.Parse.Ty
import Pascal.Proofs.Caseless.Expr

/-! # Types and constants without regard to case -/

namespace Pascal

open Text

theorem Ty.builtin?_lower (name : String) : Ty.builtin? (lower name) = Ty.builtin? name := by
  rw [builtin?, lower_lower, builtin?]

namespace Parser.Matches

variable {ctx : Context}

theorem constant (ctx : Context) : Matches id (Parser.constant ctx) (Parser.constant ctx.lowered) := by
  refine expression.bind fun e => (check e.evaluate_lowered).bind_id fun found => ?_
  rw [e.pos_lowered]
  exact pure _

theorem constantOrdinal :
    Matches id (Parser.constantOrdinal ctx) (Parser.constantOrdinal ctx.lowered) := by
  refine (constant ctx).bind_id fun found => ?_
  obtain ⟨v, ty, p⟩ := found
  dsimp only
  cases ty.isOrdinal with
  | false => exact fail rfl
  | true =>
    cases v.asOrdinal with
    | ok n => exact pure _
    | error f => exact fail rfl

theorem integerBound : Matches id (Parser.integerBound ctx) (Parser.integerBound ctx.lowered) := by
  refine (constant ctx).bind_id fun found => ?_
  obtain ⟨v, ty, p⟩ := found
  cases v with
  | integer n => exact pure _
  | long n => exact pure _
  | _ => exact fail rfl

theorem dimension (ctx : Context) : Matches id (Parser.dimension ctx) (Parser.dimension ctx.lowered) := by
  refine integerBound.bind_id fun lower => (expectSymbol .dotDot).bind_id fun _ => ?_
  refine integerBound.bind_id fun upper => ?_
  dsimp only
  cases Subrange.between? lower.1 upper.1 with
  | some r => exact pure r
  | none => exact fail rfl

theorem rangeType : Matches id (Parser.rangeType ctx) (Parser.rangeType ctx.lowered) := by
  refine constantOrdinal.bind_id fun lower => (expectSymbol .dotDot).bind_id fun _ => ?_
  refine constantOrdinal.bind_id fun upper => ?_
  dsimp only
  split
  · exact fail rfl
  · exact pure _

theorem namedType (name : String) :
    Matches id (Parser.namedType ctx name) (Parser.namedType ctx.lowered (lower name)) := by
  have hdeclared : ctx.lowered.arena.lookupType? ctx.lowered.scope (lower name) =
      ctx.arena.lookupType? ctx.scope name := ctx.arena.lookupType?_lowered ctx.scope name
  refine pos.bind_id fun p => ?_
  rw [hdeclared, Ty.builtin?_lower, Context.lookup?_lowered]
  cases ctx.arena.lookupType? ctx.scope name with
  | some ty => exact skip.bind_id fun _ => pure ty
  | none =>
    cases Ty.builtin? name with
    | some ty =>
      refine skip.bind_id fun _ => ?_
      dsimp only
      split
      · exact (group? .bracket).bind fun _ => pure ty
      · exact pure ty
    | none =>
      cases ctx.lookup? name with
      | none => exact fail rfl
      | some m =>
        cases m with
        | constant c => exact rangeType
        | _ => exact fail rfl

theorem type (ctx : Context) : Matches id (Parser.type ctx) (Parser.type ctx.lowered) := by
  have hwithin : ∀ n, Matches id (typeWithin ctx n) (typeWithin ctx.lowered n) := by
    intro n
    induction n with
    | zero => exact unexpected _
    | succ n ih =>
      refine pos.bind_id fun p => (peekGroup? .record).bind fun g => ?_
      rw [Option.isSome_map]
      split
      · exact fail rfl
      · refine (peekGroup? .class_).bind fun g => ?_
        rw [Option.isSome_map]
        split
        · exact fail rfl
        · refine kinds namedType fun k hk => ?_
          rcases k with _ | k
          · exact unexpected _
          · cases k with
            | identifier name => exact absurd rfl (hk name)
            | keyword w =>
              cases w with
              | array =>
                refine skip.bind_id fun _ => (group? .bracket).bind fun g => ?_
                cases g
                case' none => refine Matches.bind_id (pure [Subrange.unbounded]) fun dimensions => ?_
                case' some g =>
                  have hdimensions := (commaSeparated (dimension ctx)).of_map_id.inside g
                  refine hdimensions.bind_id fun dimensions => ?_
                all_goals
                  exact (expectKeyword .of).bind_id fun _ => ih.bind_id fun element => pure _
              | _ => exact rangeType
            | symbol s =>
              cases s with
              | caret => exact skip.bind_id fun _ => ih.bind_id fun ty => pure _
              | _ => exact rangeType
            | _ => exact rangeType
  intro c
  have hlength : c.lowered.items.length = c.items.length := List.length_map _
  rw [Parser.type, Parser.type, hlength]
  exact hwithin _ c

theorem initializer (ctx : Context) (ty : Ty) :
    Matches id (Parser.initializer ctx ty) (Parser.initializer ctx.lowered ty) := by
  have hvalue : ∀ ty, Matches id (do Parser.check ((← Parser.expression ctx).evaluateAs ty))
      (do Parser.check ((← Parser.expression ctx.lowered).evaluateAs ty)) :=
    fun ty => expression.bind fun e => check (e.evaluateAs_lowered ty)
  induction ty with
  | array element bounds ih =>
    rw [Parser.initializer, Parser.initializer]
    refine (group? .paren).bind fun g => ?_
    cases g with
    | none => exact hvalue _
    | some g =>
      have hitems := (commaList ih).of_map_id.inside g
      refine hitems.bind_id fun items => ?_
      dsimp only
      split
      · exact fail rfl
      · exact pure _
  | _ => exact hvalue _

end Parser.Matches

end Pascal
