import Mathlib.Data.List.Forall2
import Pascal.Proofs.Fold.Ends
import Pascal.Typing.Call

/-!
# What the functions of typing build

For each function that makes a typed expression, what it asks of its operands and what it gives.
-/

namespace Pascal

/-- A step that can fail has succeeded only if both of its parts have. -/
theorem bind_eq_ok {ε α β : Type} {x : Except ε α} {f : α → Except ε β} {b : β} :
    x >>= f = .ok b ↔ ∃ a, x = .ok a ∧ f a = .ok b := by
  cases x <;> simp [Bind.bind, Except.bind]

theorem eq_ok_of_toOption {ε α : Type} {x : Except ε α} {a : α} (h : x.toOption = some a) :
    x = .ok a := by
  cases x <;> cases h
  rfl

/-- A row of steps that can fail has succeeded just if each of them has. -/
theorem mapM_eq_ok {ε α β : Type} {f : α → Except ε β} {xs : List α} {ys : List β} :
    xs.mapM f = .ok ys ↔ List.Forall₂ (fun x y => f x = .ok y) xs ys := by
  induction xs generalizing ys with
  | nil => simp [pure, Except.pure, eq_comm]
  | cons x xs ih =>
    simp only [List.mapM_cons, bind_eq_ok, ih, List.forall₂_cons_left_iff]
    constructor
    · rintro ⟨y, hy, ys, hys, ⟨⟩⟩
      exact ⟨y, ys, hy, hys, rfl⟩
    · rintro ⟨y, ys, hy, hys, rfl⟩
      exact ⟨y, hy, ys, hys, rfl⟩

/-- The operands that a unary operator has. -/
def UnaryOp.Takes : UnaryOp → Ty → Prop
  | .not, ty => ty.isBoolean ∨ ty.isIntegral
  | .negate, ty => ty.isNumeric

namespace Expr

variable {e e' : Expr} {p : Position}

theorem convertTo?_eq_some {ty : Ty} : e.convertTo? ty = some e' ↔
    ∃ c, Conversion.between? e.ty ty = some c ∧
      e' = if c.isRetype then e.retype ty else convert c e ⟨ty, e.pos⟩ := by
  unfold convertTo?
  cases Conversion.between? e.ty ty with
  | none => simp
  | some c =>
    simp only [Option.some.injEq, exists_eq_left']
    exact eq_comm

theorem converted_eq_ok {ty : Ty} : e.converted ty = .ok e' ↔ e.convertTo? ty = some e' := by
  unfold converted
  cases e.convertTo? ty <;> simp

theorem indexed_eq_ok {base index : Expr} (h : base.indexed index = .ok e) :
    index.ty.isIntegral ∧ ∃ q, base.place? = some q ∧
      ((∃ element bounds, base.ty = .array element bounds ∧
        e = .place (.element q index) ⟨element, base.pos⟩) ∨
      (base.ty = .string ∧ e = .place (.charAt q index) ⟨.char, base.pos⟩)) := by
  unfold indexed at h
  split at h
  · cases h
  · next hi =>
    refine ⟨by simpa using hi, ?_⟩
    split at h
    · next element bounds q hty hq => cases h; exact ⟨q, hq, .inl ⟨element, bounds, hty, rfl⟩⟩
    · next q hty hq => cases h; exact ⟨q, hq, .inr ⟨hty, rfl⟩⟩
    · cases h

theorem dereferenced_eq_ok {pointer : Expr} (h : pointer.dereferenced p = .ok e) :
    ∃ target, pointer.ty = .pointer target ∧ e = .place (.deref pointer) ⟨target, p⟩ := by
  unfold dereferenced at h
  split at h
  · next target hty => cases h; exact ⟨target, hty, rfl⟩
  · cases h

theorem addressOf_eq_ok {target : Expr} (h : target.addressOf p = .ok e) :
    ∃ q n, target = .place q n ∧ e = .address q ⟨.pointer n.ty, p⟩ := by
  unfold addressOf at h
  split at h
  · next q n => cases h; exact ⟨q, n, rfl, rfl⟩
  · cases h

theorem applyUnary_eq_ok {op : UnaryOp} {operand : Expr} (h : operand.applyUnary op p = .ok e) :
    op.Takes operand.ty ∧ e = .unary op operand ⟨operand.ty, p⟩ := by
  cases op <;> simp only [applyUnary] at h <;> split at h <;> cases h <;>
    next hf => exact ⟨by simpa [UnaryOp.Takes] using hf, rfl⟩

/-- What the operands of a binary operator become, and the type of the result. -/
inductive Operands : BinaryOp → Expr → Expr → Expr → Expr → Ty → Prop where
  | shift {op : BinaryOp} {left right : Expr} (h : op = .shl ∨ op = .shr)
      (hleft : left.ty.isIntegral) (hright : right.ty.isIntegral) :
      Operands op left right left right left.ty
  | member {left right left' : Expr} {element : Ty} {bounds : Subrange}
      (hty : right.ty = .array element bounds) (hleft : left.coerce element = .ok left') :
      Operands .member left right left' right .boolean
  | common {op : BinaryOp} {left right left' right' : Expr} {operand result : Ty}
      (h : operandTypes? op left.ty right.ty = some (operand, result))
      (hleft : left.coerce operand = .ok left') (hright : right.coerce operand = .ok right') :
      Operands op left right left' right' result

theorem applyBinary_eq_ok {op : BinaryOp} {left right : Expr}
    (h : left.applyBinary op right p = .ok e) :
    ∃ left' right' result, Operands op left right left' right' result ∧
      e = .binary op left' right' ⟨result, p⟩ := by
  have hshift : op = .shl ∨ op = .shr → left.ty.isIntegral && right.ty.isIntegral →
      e = .binary op left right ⟨left.ty, p⟩ →
      ∃ left' right' result, Operands op left right left' right' result ∧
        e = .binary op left' right' ⟨result, p⟩ := by
    intro hop hi he
    simp only [Bool.and_eq_true] at hi
    exact ⟨left, right, left.ty, .shift hop hi.1 hi.2, he⟩
  unfold applyBinary at h
  dsimp only at h
  split at h
  · split at h <;> cases h
    next hi => exact hshift (.inl rfl) hi rfl
  · split at h <;> cases h
    next hi => exact hshift (.inr rfl) hi rfl
  · split at h
    · next element bounds hty =>
      split at h
      · obtain ⟨left', hleft, h⟩ := bind_eq_ok.mp h
        cases h
        exact ⟨left', right, .boolean, .member hty hleft, rfl⟩
      · cases h
    · cases h
  · split at h
    · cases h
    · next operand result hty =>
      obtain ⟨left', hleft, h⟩ := bind_eq_ok.mp h
      obtain ⟨right', hright, h⟩ := bind_eq_ok.mp h
      cases h
      exact ⟨left', right', result, .common hty hleft hright, rfl⟩

/-- The items of an array constructor, each turned into the element type by `fit`. -/
inductive Fitted (fit : Expr → Expr → Prop) (element : Ty) : List Expr → List Expr → Prop where
  | nil : Fitted fit element [] []
  | range {low high low' high' : Expr} {n : Note} {items items' : List Expr} (hlow : fit low low')
      (hhigh : fit high high') (h : Fitted fit element items items') :
      Fitted fit element (.range low high n :: items)
        (.range low' high' ⟨element, n.pos⟩ :: items')
  | item {e e' : Expr} {items items' : List Expr} (he : fit e e')
      (hrange : ∀ low high n, e ≠ .range low high n) (h : Fitted fit element items items') :
      Fitted fit element (e :: items) (e' :: items')

theorem fitItems_eq_ok {fit : Expr → Checked Expr} {element : Ty} {items items' : List Expr}
    (h : fitItems fit element items = .ok items') :
    Fitted (fun e e' => fit e = .ok e') element items items' := by
  induction items generalizing items' with
  | nil => cases h; exact .nil
  | cons e items ih =>
    by_cases he : ∃ low high n, e = .range low high n
    · obtain ⟨low, high, n, rfl⟩ := he
      obtain ⟨low', hlow, h⟩ := bind_eq_ok.mp h
      obtain ⟨high', hhigh, h⟩ := bind_eq_ok.mp h
      obtain ⟨rest, hrest, h⟩ := bind_eq_ok.mp h
      cases h
      exact .range hlow hhigh (ih hrest)
    · have hrange : ∀ low high n, e ≠ .range low high n :=
        fun low high n h => he ⟨low, high, n, h⟩
      rw [fitItems] at h
      · obtain ⟨e', he', h⟩ := bind_eq_ok.mp h
        obtain ⟨rest, hrest, h⟩ := bind_eq_ok.mp h
        cases h
        exact .item he' hrange (ih hrest)
      · exact hrange

/-- A coerced expression is a converted one, or an array constructor that took over declared bounds. -/
theorem coerce_eq_ok {ty : Ty} (h : e.coerce ty = .ok e') :
    e.convertTo? ty = some e' ∨
      ∃ lower items n element bounds items', e = .array lower items n ∧
        ty = .array element bounds ∧ ¬bounds.isOpen ∧
        (count? items).getD bounds.length = bounds.length ∧
        Fitted (fun e e' => e.coerce element = .ok e') element items items' ∧
        (array bounds.lower items' ⟨.array element bounds, n.pos⟩).convertTo?
          (.array element bounds) = some e' := by
  cases ty with
  | array element bounds =>
    unfold coerce at h
    split at h
    · next lower items n =>
      split at h
      · exact .inl (converted_eq_ok.mp h)
      · next hopen =>
        dsimp only at h
        split at h
        · cases h
        · next hc =>
          obtain ⟨items', hitems, h⟩ := bind_eq_ok.mp h
          exact .inr ⟨lower, items, n, element, bounds, items', rfl, rfl, hopen, by simpa using hc,
            fitItems_eq_ok hitems, converted_eq_ok.mp h⟩
    · exact .inl (converted_eq_ok.mp h)
  | _ => exact .inl (converted_eq_ok.mp h)

theorem evaluate_eq_ok {v : Value} {ty : Ty} (h : e.evaluate = .ok (v, ty)) :
    ∃ n, e.fold = .literal v n ∧ n.ty = ty := by
  unfold evaluate at h
  split at h
  · next hv => cases h; exact ⟨_, (fold?_eq_some.mp hv).2, rfl⟩
  · cases h
  · cases h

theorem evaluateAs_eq_ok {v : Value} {ty : Ty} (h : e.evaluateAs ty = .ok v) :
    ∃ e' n, e.coerce ty = .ok e' ∧ e'.fold = .literal v n := by
  obtain ⟨e', he', h⟩ := bind_eq_ok.mp h
  obtain ⟨⟨v', ty'⟩, hr, h⟩ := bind_eq_ok.mp h
  cases h
  obtain ⟨n, hn, -⟩ := evaluate_eq_ok hr
  exact ⟨e', n, he', hn⟩

end Expr

namespace SetItem

/-- An item of an array constructor as an expression of the element type. -/
inductive Fits (element : Ty) : SetItem → Expr → Prop where
  | single {e e' : Expr} (h : e.coerce element = .ok e') : Fits element (.single e) e'
  | range {low high low' high' : Expr} (hordinal : element.isOrdinal)
      (hlow : low.coerce element = .ok low') (hhigh : high.coerce element = .ok high') :
      Fits element (.range low high) (.range low' high' ⟨element, low.pos⟩)

theorem toExpr_eq_ok {element : Ty} {i : SetItem} {e : Expr} (h : i.toExpr element = .ok e) :
    i.Fits element e := by
  cases i with
  | single e => exact .single h
  | range low high =>
    unfold toExpr at h
    dsimp only at h
    split at h
    · cases h
    · next ho =>
      obtain ⟨low', hlow, h⟩ := bind_eq_ok.mp h
      obtain ⟨high', hhigh, h⟩ := bind_eq_ok.mp h
      cases h
      exact .range (by simpa using ho) hlow hhigh

theorem construct_eq_ok {items : List SetItem} {p : Position} {e : Expr}
    (h : construct items p = .ok e) :
    ∃ element es, elementType none (items.flatMap ends) = .ok element ∧
      List.Forall₂ (Fits element) items es ∧ e = .array 0 es ⟨.openArray element, p⟩ := by
  obtain ⟨element, hty, h⟩ := bind_eq_ok.mp h
  obtain ⟨es, hes, h⟩ := bind_eq_ok.mp h
  cases h
  exact ⟨element, es, hty, (mapM_eq_ok.mp hes).imp fun _ _ => toExpr_eq_ok, rfl⟩

end SetItem

end Pascal
