import Pascal.Parse.Stmt
import Pascal.Proofs.Formula.Parsed
import Pascal.Proofs.Scope.Tables

/-!
# What an assignment to a name sets

In front of `:=` the name of a function that is around stands for its result. The functions around are gone
through before any declaration is looked at, those that are nearer than the function included. Main statement:
an assignment to a name sets the result of the nearest function of this name, and where there is none, the
variable that the name means.
-/

namespace Pascal

/-- A scope is that of a function of a name, with a result of a type. -/
def Arena.FunctionNamed (a : Arena) (name : String) (s : Nat) (ty : Ty) : Prop :=
  ∃ id, a.functionOf? s = some id ∧ Text.sameName (a.function id).name name = true ∧
    (a.function id).signature.result = some ty

namespace Context

variable {ctx : Context} {name : String} {target : Place} {v : VarRef} {ty : Ty} {s : Nat}

/-- The variable that an assignment to a name sets, and its type. -/
inductive Sets (ctx : Context) (name : String) : VarRef → Ty → Prop where
  /-- The result of the nearest function of the name. -/
  | result {inner : List Nat} {f : Nat} {outer : List Nat} {ty : Ty}
      (around : ctx.arena.chain ctx.scope = inner ++ f :: outer)
      (nearest : ∀ s ∈ inner, ∀ ty', ¬ ctx.arena.FunctionNamed name s ty')
      (function : ctx.arena.FunctionNamed name f ty) : Sets ctx name ⟨f, resultName⟩ ty
  /-- What a read of the name gives, where no function around has the name. -/
  | variable {v : VarRef} {ty : Ty}
      (none : ∀ s ∈ ctx.arena.chain ctx.scope, ∀ ty', ¬ ctx.arena.FunctionNamed name s ty')
      (meaning : ctx.lookup? name = some (.var v ty)) : Sets ctx name v ty

/-- The result of the function that a scope belongs to, if it has the name. -/
def resultAt? (ctx : Context) (name : String) (s : Nat) : Option (Place × Ty) := do
  let id ← ctx.arena.functionOf? s
  let f := ctx.arena.function id
  let ty ← f.signature.result
  if Text.sameName f.name name then return (.var ⟨s, resultName⟩, ty) else none

theorem resultAt?_eq_some :
    ctx.resultAt? name s = some (target, ty) ↔
      target = .var ⟨s, resultName⟩ ∧ ctx.arena.FunctionNamed name s ty := by
  constructor
  · intro h
    obtain ⟨id, hid, h⟩ := Option.bind_eq_some_iff.mp h
    obtain ⟨ty', hty, h⟩ := Option.bind_eq_some_iff.mp h
    split at h
    · next hname =>
      cases h
      exact ⟨rfl, id, hid, hname, hty⟩
    · cases h
  · rintro ⟨rfl, id, hid, hname, hty⟩
    simp [resultAt?, hid, hty, hname]

theorem resultAt?_eq_none :
    ctx.resultAt? name s = none ↔ ∀ ty, ¬ ctx.arena.FunctionNamed name s ty := by
  constructor
  · intro h ty hf
    have hsome := resultAt?_eq_some.mpr ⟨rfl, hf⟩
    rw [h] at hsome
    cases hsome
  · intro h
    rw [Option.eq_none_iff_forall_ne_some]
    rintro ⟨target, ty⟩ hsome
    exact h ty (resultAt?_eq_some.mp hsome).2

theorem namedResult?_eq_some :
    ctx.namedResult? name = some (target, ty) ↔
      ∃ inner f outer, ctx.arena.chain ctx.scope = inner ++ f :: outer ∧
        (target = .var ⟨f, resultName⟩ ∧ ctx.arena.FunctionNamed name f ty) ∧
        ∀ s ∈ inner, ∀ ty', ¬ ctx.arena.FunctionNamed name s ty' := by
  change (ctx.arena.chain ctx.scope).findSome? (ctx.resultAt? name) = _ ↔ _
  simp only [List.findSome?_eq_some_iff, resultAt?_eq_some, resultAt?_eq_none]

theorem namedResult?_eq_none :
    ctx.namedResult? name = none ↔
      ∀ s ∈ ctx.arena.chain ctx.scope, ∀ ty, ¬ ctx.arena.FunctionNamed name s ty := by
  change (ctx.arena.chain ctx.scope).findSome? (ctx.resultAt? name) = _ ↔ _
  simp only [List.findSome?_eq_none_iff, resultAt?_eq_none]

/-- The results of functions are looked for first. -/
theorem sets_iff : ctx.Sets name v ty ↔ ctx.namedResult? name = some (.var v, ty) ∨
    ctx.namedResult? name = none ∧ ctx.lookup? name = some (.var v ty) := by
  constructor
  · rintro (⟨haround, hnearest, hf⟩ | ⟨hnone, hmeaning⟩)
    · exact .inl (namedResult?_eq_some.mpr ⟨_, _, _, haround, ⟨rfl, hf⟩, hnearest⟩)
    · exact .inr ⟨namedResult?_eq_none.mpr hnone, hmeaning⟩
  · rintro (h | ⟨hnone, hmeaning⟩)
    · obtain ⟨inner, f, outer, haround, ⟨htarget, hf⟩, hnearest⟩ := namedResult?_eq_some.mp h
      cases htarget
      exact .result haround hnearest hf
    · exact .variable (namedResult?_eq_none.mp hnone) hmeaning

end Context

namespace Parser

variable {ctx : Context} {x : String} {p q : Position} {rest : List Item} {closed : Token}
  {target : Place} {v : VarRef} {ty : Ty} {s : Stmt} {c c' : Cursor}

/-- The cursor in front of `:=`. -/
def atAssign (q : Position) (rest : List Item) (closed : Token) : Cursor :=
  ⟨.token ⟨.symbol .assign, q⟩ :: rest, closed⟩

/-- The cursor in front of an assignment to a name. -/
def assigning (x : String) (p q : Position) (rest : List Item) (closed : Token) : Cursor :=
  ⟨.token ⟨.identifier x, p⟩ :: (atAssign q rest closed).items, closed⟩

/-- Reads the value that a place is set to. -/
def assigned (ctx : Context) (target : Place) (ty : Ty) (p : Position) : Parser Stmt := do
  let value ← check ((← expression ctx).coerce ty)
  return .assign target value p

theorem assigned_eq_ok : assigned ctx target ty p c = .ok (s, c') ↔ ∃ e value,
    expression ctx c = .ok (e, c') ∧ e.coerce ty = .ok value ∧ s = .assign target value p := by
  unfold assigned
  simp only [bind_eq_ok_iff, check_eq_ok]
  constructor
  · rintro ⟨e, c₁, he, value, c₂, ⟨hvalue, rfl⟩, h⟩
    cases h
    exact ⟨e, value, he, hvalue, rfl⟩
  · rintro ⟨e, value, he, hvalue, rfl⟩
    exact ⟨e, c', he, value, c', ⟨hvalue, rfl⟩, rfl⟩

theorem kindAfter?_assigning :
    kindAfter? (assigning x p q rest closed) =
      .ok (some (.symbol .assign), assigning x p q rest closed) := rfl

theorem identifier_assigning :
    identifier (assigning x p q rest closed) = .ok ((x, p), atAssign q rest closed) := rfl

theorem peekGroup?_atAssign :
    peekGroup? .paren (atAssign q rest closed) = .ok (none, atAssign q rest closed) := rfl

theorem group?_atAssign :
    group? .paren (atAssign q rest closed) = .ok (none, atAssign q rest closed) := rfl

theorem eatSymbol_atAssign :
    eatSymbol .assign (atAssign q rest closed) = .ok (true, ⟨rest, closed⟩) := rfl

/-- No index and no caret stands in front of `:=`. -/
theorem suffixes_atAssign (expression : Parser Expr) (e : Expr) :
    suffixes expression e (atAssign q rest closed) = .ok (e, atAssign q rest closed) := rfl

theorem statement_assigning :
    statement ctx (assigning x p q rest closed) =
      namedStatement ctx x p (assigning x p q rest closed) := rfl

theorem namedStatement_result (h : ctx.namedResult? x = some (target, ty)) :
    namedStatement ctx x p (assigning x p q rest closed) =
      assigned ctx target ty p ⟨rest, closed⟩ := by
  rw [namedStatement, bind_ok kindAfter?_assigning]
  simp only [Option.any_some, Token.Kind.isSymbol, decide_true, if_true, h]
  rfl

/-- Of all that a name in front of `:=` may mean, only a variable is a place. -/
theorem designator_assigning {e : Expr}
    (h : designator ctx true (assigning x p q rest closed) = .ok (e, c)) :
    c = atAssign q rest closed ∧ ∀ target, e.place? = some target →
      ∃ v ty, ctx.lookup? x = some (.var v ty) ∧ e = .place (.var v) ⟨ty, p⟩ := by
  have hmeaning : ctx.meaning? x (none : Option Group).isSome = ctx.lookup? x := rfl
  rw [designator, designatorWith, bind_ok identifier_assigning] at h
  dsimp only at h
  rw [bind_ok peekGroup?_atAssign, hmeaning] at h
  cases hlookup : ctx.lookup? x with
  | none =>
    rw [hlookup] at h
    cases h
  | some m =>
    rw [hlookup] at h
    cases m with
    | routines cs =>
      dsimp only at h
      rw [bind_ok group?_atAssign] at h
      dsimp only at h
      rw [pure_bind] at h
      obtain ⟨⟨callee, args, result⟩, c₁, hcall, h⟩ := bind_eq_ok_iff.mp h
      obtain ⟨-, rfl⟩ := check_eq_ok.mp hcall
      cases result with
      | none =>
        cases h
        exact ⟨rfl, fun _ hplace => by cases hplace⟩
      | some ty =>
        dsimp only at h
        rw [suffixes_atAssign] at h
        cases h
        exact ⟨rfl, fun _ hplace => by cases hplace⟩
    | constant k =>
      dsimp only at h
      rw [Option.isSome_none, if_neg Bool.false_ne_true, suffixes_atAssign] at h
      cases h
      exact ⟨rfl, fun _ hplace => by cases hplace⟩
    | var v ty =>
      dsimp only at h
      rw [Option.isSome_none, if_neg Bool.false_ne_true, suffixes_atAssign] at h
      cases h
      exact ⟨rfl, fun _ _ => ⟨v, ty, rfl, rfl⟩⟩

theorem designator_variable (h : ctx.lookup? x = some (.var v ty)) :
    designator ctx true (assigning x p q rest closed) =
      .ok (.place (.var v) ⟨ty, p⟩, atAssign q rest closed) := by
  have hmeaning : ctx.meaning? x (none : Option Group).isSome = some (.var v ty) := h
  rw [designator, designatorWith, bind_ok identifier_assigning]
  dsimp only
  rw [bind_ok peekGroup?_atAssign, hmeaning]
  exact suffixes_atAssign _ _

theorem namedStatement_variable (hresult : ctx.namedResult? x = none)
    (h : ctx.lookup? x = some (.var v ty)) :
    namedStatement ctx x p (assigning x p q rest closed) =
      assigned ctx (.var v) ty p ⟨rest, closed⟩ := by
  rw [namedStatement, bind_ok kindAfter?_assigning]
  simp only [Option.any_some, Token.Kind.isSymbol, decide_true, if_true, hresult, h, Option.isNone_some,
    Bool.and_false, Bool.false_eq_true, if_false]
  rw [assignmentOrCall, bind_ok (designator_variable h)]
  dsimp only
  rw [bind_ok eatSymbol_atAssign]
  rfl

/-- What is no variable is not assigned to. -/
theorem namedStatement_eq_ok (hresult : ctx.namedResult? x = none)
    (h : namedStatement ctx x p (assigning x p q rest closed) = .ok (s, c)) :
    ∃ v ty, ctx.lookup? x = some (.var v ty) := by
  rw [namedStatement, bind_ok kindAfter?_assigning] at h
  simp only [Option.any_some, Token.Kind.isSymbol, decide_true, if_true, hresult] at h
  split at h
  · -- Storage is made only where a group comes behind the word.
    cases h
  obtain ⟨e, c₁, he, h⟩ := bind_eq_ok_iff.mp h
  obtain ⟨rfl, hplace⟩ := designator_assigning he
  rw [bind_ok eatSymbol_atAssign, if_pos rfl] at h
  obtain ⟨value, c₂, -, h⟩ := bind_eq_ok_iff.mp h
  cases htarget : e.place? with
  | none =>
    rw [htarget] at h
    cases h
  | some target =>
    obtain ⟨v, ty, hlookup, -⟩ := hplace target htarget
    exact ⟨v, ty, hlookup⟩

/-- An assignment to a name sets the result of the nearest function of the name around, whatever is declared
in between. Where no function around has the name, it sets the variable that the name means. The value is what
is read behind `:=`, converted to the type of what is set. -/
theorem statement_assign :
    statement ctx (assigning x p q rest closed) = .ok (s, c) ↔
      ∃ v ty e value, ctx.Sets x v ty ∧ expression ctx ⟨rest, closed⟩ = .ok (e, c) ∧
        e.coerce ty = .ok value ∧ s = .assign (.var v) value p := by
  rw [statement_assigning]
  constructor
  · intro h
    cases hresult : ctx.namedResult? x with
    | some r =>
      obtain ⟨target, ty⟩ := r
      obtain ⟨_, f, _, _, ⟨rfl, _⟩, _⟩ := Context.namedResult?_eq_some.mp hresult
      rw [namedStatement_result hresult] at h
      obtain ⟨e, value, hread⟩ := assigned_eq_ok.mp h
      exact ⟨_, ty, e, value, Context.sets_iff.mpr (.inl hresult), hread⟩
    | none =>
      obtain ⟨v, ty, hlookup⟩ := namedStatement_eq_ok hresult h
      rw [namedStatement_variable hresult hlookup] at h
      obtain ⟨e, value, hread⟩ := assigned_eq_ok.mp h
      exact ⟨v, ty, e, value, Context.sets_iff.mpr (.inr ⟨hresult, hlookup⟩), hread⟩
  · rintro ⟨v, ty, e, value, hsets, hread⟩
    rcases Context.sets_iff.mp hsets with hresult | ⟨hresult, hlookup⟩
    · rw [namedStatement_result hresult]
      exact assigned_eq_ok.mpr ⟨e, value, hread⟩
    · rw [namedStatement_variable hresult hlookup]
      exact assigned_eq_ok.mpr ⟨e, value, hread⟩

/-- Inside a procedure with a variable of the same name as the function around it. -/
private def shadowed : Context where
  arena := [Operation.push .program "test" none, .declareFunction 0 "f" ⟨[], some .integer⟩ default,
    .declareFunction 1 "inner" ⟨[], none⟩ default,
    .declareVariable 2 ⟨"f", .integer, default, none⟩].foldl Arena.afterOperation {}
  scope := 2

/-- The variable is what a read of the name gives, and the result of the function is what an assignment sets. -/
theorem statement_assign_shadowed :
    shadowed.arena.chain 2 = [2, 1, 0] ∧
      shadowed.arena.declaredMeaning? 2 "f" = some (.var ⟨2, "f"⟩ .integer) ∧
      shadowed.lookup? "f" = some (.var ⟨2, "f"⟩ .integer) ∧
      statement shadowed (assigning "f" default default [.token ⟨.integer 5, default⟩] ⟨.eof, default⟩) =
        .ok (.assign (.var ⟨1, resultName⟩) (.literal (.integer 5) ⟨.integer, default⟩) default,
          ⟨[], ⟨.eof, default⟩⟩) :=
  ⟨by rfl, by rfl, by rfl, by rfl⟩

end Parser

end Pascal
