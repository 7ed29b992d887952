import Pascal.Proofs.Caseless.Stmt

/-! # Declarations without regard to case -/

namespace Pascal

open Text

namespace Parser.Matches

variable {ctx : Context}

theorem checkScope {α β : Type} {f : α → β} {r : Except ScopeError α} {r' : Except ScopeError β}
    (h : Pascal.Matches ScopeError.outline f r r') :
    Matches f (Parser.checkScope r) (Parser.checkScope r') :=
  check h.scope

theorem declareAll (scope : Nat) (names : List (String × Position)) (ty : Ty) (initial : Option Value)
    (a : Arena) : Matches Arena.lowered (Parser.declareAll scope names ty initial a)
      (Parser.declareAll scope (names.map (Prod.map lower id)) ty initial a.lowered) := by
  refine checkScope ?_
  rw [List.foldlM_map]
  refine Pascal.Matches.foldlM (fun a found => ?_) names a
  exact (a.declareVariable_lowered scope ⟨found.1, ty, found.2, initial⟩).bind fun r => .ok r.2

theorem constantDeclaration (scope : Nat) (a : Arena) :
    Matches Arena.lowered (Parser.constantDeclaration scope a)
      (Parser.constantDeclaration scope a.lowered) := by
  refine identifier.bind fun found => ?_
  obtain ⟨name, p⟩ := found
  refine (eatSymbol .colon).bind_id fun b => ?_
  cases b with
  | true =>
    refine (type { arena := a, scope }).bind_id fun ty => ?_
    refine (expectSymbol .equal).bind_id fun _ => ?_
    refine (initializer { arena := a, scope } ty).bind_id fun v => ?_
    refine (declareAll scope [(name, p)] ty (some v) a).bind fun a => ?_
    exact (expectSymbol .semicolon).bind_id fun _ => pure a
  | false =>
    refine (expectSymbol .equal).bind_id fun _ => ?_
    refine (constant { arena := a, scope }).bind_id fun found => ?_
    obtain ⟨v, ty, -⟩ := found
    refine (checkScope (a.declareConstant_lowered scope ⟨name, v, ty, p⟩)).bind fun a => ?_
    exact (expectSymbol .semicolon).bind_id fun _ => pure a

theorem typeDeclaration (scope : Nat) (a : Arena) :
    Matches Arena.lowered (Parser.typeDeclaration scope a) (Parser.typeDeclaration scope a.lowered) := by
  refine identifier.bind fun found => (expectSymbol .equal).bind_id fun _ => ?_
  obtain ⟨name, p⟩ := found
  refine (type { arena := a, scope }).bind_id fun ty => ?_
  refine (expectSymbol .semicolon).bind_id fun _ => ?_
  exact checkScope (a.declareType_lowered scope name ty p)

theorem variableDeclaration (scope : Nat) (a : Arena) :
    Matches Arena.lowered (Parser.variableDeclaration scope a)
      (Parser.variableDeclaration scope a.lowered) := by
  refine (commaSeparated identifier).bind fun names => (expectSymbol .colon).bind_id fun _ => ?_
  refine (type { arena := a, scope }).bind_id fun ty => (eatSymbol .equal).bind_id fun b => ?_
  have hvalue : Matches id (some <$> Parser.initializer { arena := a, scope } ty)
      (some <$> Parser.initializer { arena := a.lowered, scope } ty) :=
    (initializer { arena := a, scope } ty).map fun _ => rfl
  cases b with
  | true =>
    refine hvalue.bind_id fun initial => (expectSymbol .semicolon).bind_id fun _ => ?_
    exact declareAll scope names ty initial a
  | false =>
    refine Matches.bind_id (pure none) fun initial => (expectSymbol .semicolon).bind_id fun _ => ?_
    exact declareAll scope names ty initial a

theorem each {declaration : Arena → Parser Arena}
    (h : ∀ a, Matches Arena.lowered (declaration a) (declaration a.lowered)) (a : Arena) :
    Matches Arena.lowered (Parser.each declaration a) (Parser.each declaration a.lowered) := by
  refine iterate (fun a => identifier?.bind fun name => ?_) a
  cases name with
  | none => exact pure none
  | some name => exact (h a).map fun _ => rfl

theorem paramMode : Matches id Parser.paramMode Parser.paramMode := by
  refine (eatKeyword .var).bind_id fun b => ?_
  cases b with
  | true => exact pure _
  | false =>
    refine (eatKeyword .const).bind_id fun b => ?_
    cases b with
    | true => exact pure _
    | false => exact pure _

theorem parameterGroup : Matches (List.map Parameter.lowered) (Parser.parameterGroup ctx)
    (Parser.parameterGroup ctx.lowered) := by
  refine paramMode.bind_id fun mode => (commaSeparated identifier).bind fun names => ?_
  refine (expectSymbol .colon).bind_id fun _ => (type ctx).bind_id fun ty => pure_of_eq _ ?_
  rw [List.map_map, List.map_map]
  rfl

theorem parameters : Matches (List.map Parameter.lowered) (Parser.parameters ctx)
    (Parser.parameters ctx.lowered) := by
  refine isDone.bind_id fun b => ?_
  cases b with
  | true => exact pure []
  | false =>
    refine parameterGroup.bind fun first => ?_
    refine Matches.bind (f := List.map (List.map Parameter.lowered)) (repeated ?_) fun others =>
      pure_of_eq (first ++ others.flatten) (by simp [List.map_flatten])
    refine (eatSymbol .semicolon).bind_id fun b => ?_
    cases b with
    | false => exact pure none
    | true =>
      refine isDone.bind_id fun b => ?_
      cases b with
      | true => exact pure none
      | false => exact parameterGroup.bind fun ps => pure (some ps)

theorem header (ctx : Context) : Matches (Prod.map lower (Prod.map Signature.lowered id)) (Parser.header ctx)
    (Parser.header ctx.lowered) := by
  have hfunction : Matches id (atKeyword .function) (atKeyword .function) :=
    at_ fun k => k.isKeyword_lowered .function
  have hresult : Matches id (some <$> Parser.type ctx) (some <$> Parser.type ctx.lowered) :=
    (type ctx).map fun _ => rfl
  have hnone : Matches (List.map Parameter.lowered) (Pure.pure []) (Pure.pure []) := pure []
  refine hfunction.bind_id fun isFunction => skip.bind_id fun _ => identifier.bind fun found => ?_
  obtain ⟨name, p⟩ := found
  refine (group? .paren).bind fun g => ?_
  cases g
  case' none => refine hnone.bind fun params => ?_
  case' some g => refine (parameters.inside g).bind fun params => ?_
  all_goals
    cases isFunction with
    | true =>
      refine (expectSymbol .colon).bind_id fun _ => hresult.bind_id fun result => ?_
      exact (expectSymbol .semicolon).bind_id fun _ => pure (name, (⟨params, result⟩ : Signature), p)
    | false =>
      refine Matches.bind_id (pure none) fun result => ?_
      exact (expectSymbol .semicolon).bind_id fun _ => pure (name, (⟨params, result⟩ : Signature), p)

section

variable {declarations declarations' : Nat → Arena → Parser Arena}
  (h : ∀ scope a, Matches Arena.lowered (declarations scope a) (declarations' scope a.lowered))

include h

theorem routine (scope : Nat) (part : Section) (a : Arena) :
    Matches Arena.lowered (Parser.routine declarations scope part a)
      (Parser.routine declarations' scope part a.lowered) := by
  refine (header { arena := a, scope }).bind fun found => ?_
  obtain ⟨name, signature, p⟩ := found
  refine (checkScope (a.declareFunction_lowered scope name signature p)).bind fun found => ?_
  obtain ⟨id, a⟩ := found
  refine (checkScope (a.declareParameters_lowered id)).bind fun a => ?_
  refine (eatKeyword .forward).bind_id fun b => ?_
  cases b with
  | true => exact (expectSymbol .semicolon).bind_id fun _ => pure a
  | false =>
    cases part with
    | interface => exact pure a
    | definitions =>
      dsimp only [id_eq]
      have hscope : (a.lowered.function id).scope = (a.function id).scope := by
        rw [Arena.function_lowered]
        rfl
      rw [hscope]
      refine (h _ a).bind fun a => (group .begin_).bind fun g => ?_
      refine ((statement { arena := a, scope := _ }).block g).bind fun body => ?_
      refine (expectSymbol .semicolon).bind_id fun _ => pure_of_eq _ ?_
      symm
      apply Arena.modifyFunction_lowered
      exact fun _ => rfl

theorem declarationPart? (scope : Nat) (part : Section) (a : Arena) :
    Matches (Option.map Arena.lowered) (Parser.declarationPart? declarations scope part a)
      (Parser.declarationPart? declarations' scope part a.lowered) := by
  refine kinds (fun name => pure none) fun k hk => ?_
  rcases k with _ | k
  · exact pure none
  · cases k with
    | keyword w =>
      cases w with
      | const => exact skip.bind_id fun _ => (each (constantDeclaration scope) a).map fun _ => rfl
      | type => exact skip.bind_id fun _ => (each (typeDeclaration scope) a).map fun _ => rfl
      | var => exact skip.bind_id fun _ => (each (variableDeclaration scope) a).map fun _ => rfl
      | procedure => exact (routine h scope part a).map fun _ => rfl
      | function => exact (routine h scope part a).map fun _ => rfl
      | _ => exact pure none
    | _ => exact pure none

end

theorem declarations (scope : Nat) (part : Section) (a : Arena) :
    Matches Arena.lowered (Parser.declarations scope part a)
      (Parser.declarations scope part a.lowered) := by
  have hwithin : ∀ n scope part a, Matches Arena.lowered (declarationsWithin n scope part a)
      (declarationsWithin n scope part a.lowered) := by
    intro n
    induction n with
    | zero => exact fun _ _ a => pure a
    | succ n ih =>
      intro scope part a
      exact iterate (declarationPart? (fun own a => ih own .definitions a) scope part) a
  intro c
  have hlength : c.lowered.items.length = c.items.length := List.length_map _
  rw [Parser.declarations, Parser.declarations, hlength]
  exact hwithin _ scope part a c

end Parser.Matches

end Pascal
