import Pascal.Proofs.Parse.Stmt
import Pascal.Proofs.Scope.Extends

/-! # Declarations that are read extend the arena step by step -/

namespace Pascal

/-- What declarations of a scope lead to. -/
abbrev Arena.DeclaresAll (ranges : Bool) : Arena → Arena → Prop :=
  Relation.ReflTransGen (Arena.Declares ranges)

theorem Arena.DeclaresAll.kept {ranges : Bool} {a a' : Arena} (h : Arena.DeclaresAll ranges a a')
    (hn : a.Nested) : a.Kept a' := by
  induction h with
  | refl => exact ⟨.refl a, hn, id, fun n hle hlt => absurd hlt (by omega), rfl, rfl⟩
  | tail _ h ih =>
    have hk := h.kept ih.nested
    refine ⟨ih.grows.trans hk.grows, hk.nested, fun hh => hk.headed (ih.headed hh),
      fun n hle hlt => ?_, ih.knows.trans hk.knows⟩
    rename_i b c _
    rcases Nat.lt_or_ge n b.scopes.size with hb | hb
    · obtain ⟨id, hkind⟩ := ih.scopes n hle hb
      exact ⟨id, (hk.grows.kind hb).trans hkind⟩
    · exact hk.scopes n hb hlt

namespace Parser

variable {ranges : Bool} {scope : Nat}

/-- Reads on from an arena in which names are declared in `scope`, at every cursor. -/
def Declares (ranges : Bool) (scope : Nat) (p : Arena → Parser Arena) : Prop :=
  ∀ I, Cursor.Guard ranges I → ∀ a : Arena, a.Nested → scope < a.scopes.size →
    (p a).Yields I (Arena.DeclaresAll ranges a)

section Guarded

variable {I : Cursor → Prop} (hI : Cursor.Guard ranges I)

include hI

omit hI in
theorem Yields.checkScope {α : Type} {r : Except ScopeError α} :
    (Parser.checkScope r).Yields I (fun a => r = .ok a) := by
  refine Yields.check.mono fun a h => ?_
  cases r with
  | error e => cases h
  | ok b => exact congrArg Except.ok (Except.ok.inj h)

omit hI in
theorem Yields.declareAll {a : Arena} {names : List (String × Position)} {ty : Ty}
    {initial : Option Value} (hs : scope < a.scopes.size) (hty : ty.Written { arena := a, scope })
    (hinitial : ∀ v, initial = some v → v.Initial ranges { arena := a, scope } ty) :
    (Parser.declareAll scope names ty initial a).Yields I
      (Arena.DeclaresAll ranges a) :=
  Yields.checkScope.mono fun _ h => .single (.vars hs hty hinitial h)

omit hI in
theorem Declares.constantDeclaration : Declares ranges scope (constantDeclaration scope) := by
  intro I hI a _ hs
  refine (Yields.identifier hI).bind fun (name, p) _ => ?_
  refine (Yields.eatSymbol hI).bind fun b _ => ?_
  have hend : ∀ a' : Arena, Arena.DeclaresAll ranges a a' →
      Parser.Yields I (do expectSymbol .semicolon; return a')
        (Arena.DeclaresAll ranges a) :=
    fun a' h => (Yields.expectSymbol hI).bind fun _ _ => .pure h
  cases b with
  | true =>
    refine (Yields.type hI).bind fun ty hty => (Yields.expectSymbol hI).bind fun _ _ => ?_
    refine (Yields.initializer hI).bind fun v hv => (Yields.declareAll hs hty ?_).bind hend
    rintro v' ⟨⟩
    exact hv
  | false =>
    refine (Yields.expectSymbol hI).bind fun _ _ => (Yields.constant hI).bind ?_
    rintro ⟨v, ty, q⟩ ⟨e, he, hv⟩
    exact Yields.checkScope.bind fun a' h => hend a' (.single (.constant hs he hv h))

omit hI in
theorem Declares.typeDeclaration : Declares ranges scope (typeDeclaration scope) := by
  intro I hI a _ hs
  refine (Yields.identifier hI).bind fun (name, p) _ => ?_
  refine (Yields.expectSymbol hI).bind fun _ _ => (Yields.type hI).bind fun ty hty => ?_
  refine (Yields.expectSymbol hI).bind fun _ _ => ?_
  exact Yields.checkScope.mono fun _ h => .single (.type hs hty h)

omit hI in
theorem Declares.variableDeclaration : Declares ranges scope (variableDeclaration scope) := by
  intro I hI a _ hs
  refine (Yields.commaSeparated hI (Yields.identifier hI)).bind fun names _ => ?_
  refine (Yields.expectSymbol hI).bind fun _ _ => (Yields.type hI).bind fun ty hty => ?_
  refine (Yields.eatSymbol hI).bind fun b _ => ?_
  have hend : ∀ initial : Option Value,
      (∀ v, initial = some v → v.Initial ranges { arena := a, scope } ty) →
      Parser.Yields I (do
        expectSymbol .semicolon
        Parser.declareAll scope names ty initial a) (Arena.DeclaresAll ranges a) :=
    fun initial h => (Yields.expectSymbol hI).bind fun _ _ => Yields.declareAll hs hty h
  cases b with
  | true =>
    refine ((Yields.initializer hI).map (f := some) ?_).bind hend
    rintro v hv v' ⟨⟩
    exact hv
  | false => exact (Yields.pure (by simp)).bind hend

omit hI in
theorem Declares.each {declaration : Arena → Parser Arena}
    (h : Declares ranges scope declaration) :
    Declares ranges scope (each declaration) := by
  intro I hI a hn hs
  refine Yields.iterate (Q := Arena.DeclaresAll ranges a) .refl fun a' ha' => ?_
  refine Yields.identifier?.bind fun name _ => ?_
  cases name with
  | none => exact .pure (by simp)
  | some name =>
    refine (h I hI a' (ha'.kept hn).nested (hs.trans_le (ha'.kept hn).grows.scopes)).map (f := some) ?_
    rintro a'' ha'' b ⟨⟩
    exact ha'.trans ha''

theorem Yields.paramMode : Parser.paramMode.Yields I (fun _ => True) := by
  refine (Yields.eatKeyword hI (by simp)).bind fun b _ => ?_
  cases b with
  | true => exact .pure trivial
  | false =>
    refine (Yields.eatKeyword hI (by simp)).bind fun b _ => ?_
    cases b <;> exact .pure trivial

theorem Yields.parameterGroup {ctx : Context} :
    (Parser.parameterGroup ctx).Yields I (fun ps => ∀ q ∈ ps, q.ty.Written ctx) := by
  refine (Yields.paramMode hI).bind fun mode _ => ?_
  refine (Yields.commaSeparated hI (Yields.identifier hI)).bind fun names _ => ?_
  refine (Yields.expectSymbol hI).bind fun _ _ => (Yields.type hI).bind fun ty hty => .pure ?_
  intro q hq
  obtain ⟨name, -, rfl⟩ := List.mem_map.mp hq
  exact hty

theorem Yields.parameters {ctx : Context} :
    (Parser.parameters ctx).Yields I (fun ps => ∀ q ∈ ps, q.ty.Written ctx) := by
  refine Yields.isDone.bind fun b _ => ?_
  cases b with
  | true => exact .pure (by simp)
  | false =>
    refine (Yields.parameterGroup hI).bind fun first hfirst => ?_
    refine (Yields.repeated (Q := fun ps => ∀ q ∈ ps, q.ty.Written ctx) ?_).bind fun others ho =>
      .pure ?_
    · refine (Yields.eatSymbol hI).bind fun b _ => ?_
      cases b with
      | false => exact .pure (by simp)
      | true =>
        refine Yields.isDone.bind fun b _ => ?_
        cases b with
        | true => exact .pure (by simp)
        | false =>
          refine (Yields.parameterGroup hI).bind fun ps hps => .pure ?_
          rintro ps' ⟨⟩
          exact hps
    · intro q hq
      rcases List.mem_append.mp hq with hq | hq
      · exact hfirst q hq
      · obtain ⟨ps, hps, hq⟩ := List.mem_flatten.mp hq
        exact ho ps hps q hq

/-- The types in a heading can be written where it stands. -/
theorem Yields.header {ctx : Context} {k : Token.Kind} (hk : ¬Cursor.IsMark (some k)) :
    (Parser.header ctx).Meets (fun c => I c ∧ c.kind? = some k)
      (fun r c => ((∀ q ∈ r.2.1.params, q.ty.Written ctx) ∧
        ∀ ty, r.2.1.result = some ty → ty.Written ctx) ∧ I c) := by
  have hat : ∀ {P : Cursor → Prop}, (atKeyword .function).Meets P (fun _ c => P c) := by
    intro P c b c' hc h
    cases h
    exact hc
  refine hat.bind fun isFunction => Yields.skip hI hk ?_
  refine (Yields.identifier hI).bind fun (name, p) _ => ?_
  refine (Yields.group? hI).bind fun g hg => ?_
  have hend : ∀ params : List Parameter, (∀ q ∈ params, q.ty.Written ctx) →
      Parser.Yields I (do
        let result ← if isFunction then do
            Parser.expectSymbol .colon
            some <$> Parser.type ctx
          else Pure.pure none
        Parser.expectSymbol .semicolon
        return (name, ⟨params, result⟩, p))
      (fun r : String × Signature × Position => (∀ q ∈ r.2.1.params, q.ty.Written ctx) ∧
        ∀ ty, r.2.1.result = some ty → ty.Written ctx) := by
    intro params hparams
    have hdone : ∀ result : Option Ty, (∀ ty, result = some ty → ty.Written ctx) →
        Parser.Yields I (do
          Parser.expectSymbol .semicolon
          return (name, ⟨params, result⟩, p))
        (fun r : String × Signature × Position => (∀ q ∈ r.2.1.params, q.ty.Written ctx) ∧
          ∀ ty, r.2.1.result = some ty → ty.Written ctx) := fun result hresult =>
      (Yields.expectSymbol hI).bind fun _ _ => .pure ⟨hparams, hresult⟩
    dsimp only
    split
    · refine (Yields.expectSymbol hI).bind fun _ _ => ((Yields.type hI).map (f := some) ?_).bind hdone
      rintro ty hty ty' ⟨⟩
      exact hty
    · exact (Yields.pure (by simp)).bind hdone
  cases g with
  | some g => exact (Yields.inside (hg g rfl).1 (Yields.parameters (Cursor.guard_fair ranges))).bind hend
  | none =>
    refine Yields.bind (Q := fun ps => ps = []) (Yields.pure rfl) fun ps hps => ?_
    exact hend ps (by simp [hps])

section Routines

variable {declarations : Nat → Arena → Parser Arena}
  (h : ∀ own, Declares ranges own (declarations own))

include h

theorem Declares.routine {part : Section} {a : Arena} (hn : a.Nested) (hs : scope < a.scopes.size)
    {k : Token.Kind} (hk : ¬Cursor.IsMark (some k)) :
    (Parser.routine declarations scope part a).Meets (fun c => I c ∧ c.kind? = some k)
      (fun a' c => Arena.DeclaresAll ranges a a' ∧ I c) := by
  refine Meets.bind (Yields.header hI hk) fun r c a' c' hc hr => ?_
  obtain ⟨name, signature, p⟩ := r
  obtain ⟨⟨hparams, hresult⟩, hc⟩ := hc
  revert hr
  refine Yields.bind Yields.checkScope ?_ hc
  rintro ⟨id, a₁⟩ hf
  refine Yields.checkScope.bind fun a₂ hp => ?_
  have hstep : Arena.DeclaresAll ranges a a₂ := .single (.header hs hparams hresult hf hp)
  have hheader := Arena.declaresHeader hn hs hf hp
  refine (Yields.eatKeyword hI (by simp)).bind fun b _ => ?_
  cases b with
  | true => exact (Yields.expectSymbol hI).bind fun _ _ => .pure hstep
  | false =>
    rw [if_neg Bool.false_ne_true]
    dsimp only
    split
    · exact .pure hstep
    · have hown := (hheader.nested.own id hheader.bound).1
      refine (h _ I hI a₂ hheader.nested hown).bind fun a₃ h₃ => ?_
      have hg := (h₃.kept hheader.nested).grows
      refine (Yields.group hI).bind fun g hg' => ?_
      refine (Yields.block (BuildsStmt.statement ranges _) hg').bind fun body hbody => ?_
      refine (Yields.expectSymbol hI).bind fun _ _ => .pure ((hstep.trans h₃).tail ?_)
      rw [← hg.ownScope hheader.bound] at hbody
      exact .body (hheader.bound.trans_le hg.functions) hbody

theorem Declares.declarationPart? {part : Section} {a : Arena} (hn : a.Nested)
    (hs : scope < a.scopes.size) :
    (Parser.declarationPart? declarations scope part a).Yields I
      (fun r => ∀ a', r = some a' → Arena.DeclaresAll ranges a a') := by
  have hsome : ∀ {p : Parser Arena}, p.Yields I (Arena.DeclaresAll ranges a) →
      (some <$> p).Yields I
        (fun r => ∀ a', r = some a' → Arena.DeclaresAll ranges a a') := by
    intro p hp
    refine hp.map ?_
    rintro a' ha' a'' ⟨⟩
    exact ha'
  refine Meets.bind (Meets.kind (I := I)) fun k => ?_
  have hroutine : ∀ {k : Token.Kind}, ¬Cursor.IsMark (some k) →
      (some <$> Parser.routine declarations scope part a).Meets
        (fun c => I c ∧ c.kind? = some k)
        (fun r c => (∀ a', r = some a' → Arena.DeclaresAll ranges a a') ∧ I c) := by
    intro k hk
    refine (Declares.routine hI h hn hs hk).map ?_
    rintro a' c ⟨ha', hc⟩
    refine ⟨?_, hc⟩
    rintro a'' ⟨⟩
    exact ha'
  split
  · exact Yields.skip hI (by simp [Cursor.IsMark]) (hsome (Declares.each Declares.constantDeclaration I hI a hn hs))
  · exact Yields.skip hI (by simp [Cursor.IsMark]) (hsome (Declares.each Declares.typeDeclaration I hI a hn hs))
  · exact Yields.skip hI (by simp [Cursor.IsMark]) (hsome (Declares.each Declares.variableDeclaration I hI a hn hs))
  · exact hroutine (by simp [Cursor.IsMark])
  · exact hroutine (by simp [Cursor.IsMark])
  · exact (Yields.pure (by simp)).given

end Routines

end Guarded

theorem Declares.declarationsWithin (n : Nat) {part : Section} :
    Declares ranges scope (Parser.declarationsWithin n scope part) := by
  induction n generalizing scope part with
  | zero => exact fun I hI a _ _ => .pure .refl
  | succ n ih =>
    intro I hI a hn hs
    refine Yields.iterate (Q := Arena.DeclaresAll ranges a) .refl fun a' ha' => ?_
    refine (Declares.declarationPart? hI (fun _ => ih) (ha'.kept hn).nested
      (hs.trans_le (ha'.kept hn).grows.scopes)).mono fun r hr a'' he => ?_
    exact ha'.trans (hr a'' he)

/-- Declarations that are read extend the arena. -/
theorem Declares.declarations {part : Section} :
    Declares ranges scope (Parser.declarations scope part) :=
  fun I hI a hn hs _ _ _ hc h => Declares.declarationsWithin _ I hI a hn hs hc h

end Parser

end Pascal
