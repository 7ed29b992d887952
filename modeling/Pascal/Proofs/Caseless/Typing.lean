import Pascal.Proofs.Caseless.Matches
import Pascal.Proofs.Caseless.Tree
import Pascal.Typing.Call

/-!
# Typing without regard to case

Types and complaints about them do not depend on the names in trees.
-/

namespace Pascal

namespace Expr

theorem converted_lowered (e : Expr) (t : Ty) :
    Checked.Matches Expr.lowered (e.converted t) (e.lowered.converted t) := by
  unfold converted
  rw [convertTo?_lowered]
  cases e.convertTo? t with
  | none => exact .error (by simp)
  | some e => exact .ok e

@[simp] theorem itemCount?_lowered (e : Expr) : e.lowered.itemCount? = e.itemCount? := by
  cases e with
  | range low high n => simp [itemCount?]
  | format v w p n => cases p <;> rfl
  | _ => rfl

@[simp] theorem count?_lowered (items : List Expr) : count? (items.map Expr.lowered) = count? items := by
  induction items with
  | nil => rfl
  | cons e items ih => simp [count?, ih]

theorem fitItems_lowered {fit fit' : Expr → Checked Expr}
    (h : ∀ e, Checked.Matches Expr.lowered (fit e) (fit' e.lowered)) (element : Ty)
    (items : List Expr) :
    Checked.Matches (List.map Expr.lowered) (fitItems fit element items)
      (fitItems fit' element (items.map Expr.lowered)) := by
  induction items with
  | nil => exact .ok []
  | cons e items ih =>
    by_cases hrange : ∃ low high n, e = .range low high n
    · obtain ⟨low, high, n, rfl⟩ := hrange
      rw [List.map_cons, Expr.lowered, fitItems, fitItems]
      refine (h low).bind fun low => (h high).bind fun high => ih.bind fun items => ?_
      exact .of_eq _ (by simp)
    · have hne : ∀ low high n, e ≠ .range low high n := fun low high n h => hrange ⟨low, high, n, h⟩
      rw [List.map_cons, fitItems, fitItems]
      · refine (h e).bind fun e => ih.bind fun items => ?_
        exact .of_eq _ (by simp)
      · exact lowered_ne_range hne
      · exact hne

theorem coerce_lowered (e : Expr) (t : Ty) :
    Checked.Matches Expr.lowered (e.coerce t) (e.lowered.coerce t) := by
  induction t generalizing e with
  | array element bounds ih =>
    by_cases harray : ∃ lower items n, e = .array lower items n
    · obtain ⟨lower, items, n, rfl⟩ := harray
      rw [Expr.lowered, loweredExprs_eq, coerce, coerce, count?_lowered]
      split
      · have h := converted_lowered (.array lower items n) (.array element bounds)
        rwa [Expr.lowered, loweredExprs_eq] at h
      · dsimp only
        split
        · exact .error rfl
        · refine (fitItems_lowered ih element items).bind fun items => ?_
          have h := converted_lowered (.array bounds.lower items ⟨.array element bounds, n.pos⟩)
            (.array element bounds)
          rwa [Expr.lowered, loweredExprs_eq] at h
    · have hne : ∀ lower items n, e ≠ .array lower items n :=
        fun lower items n h => harray ⟨lower, items, n, h⟩
      have hne' : ∀ lower items n, e.lowered ≠ .array lower items n := by
        intro lower items n he
        cases e with
        | array lower' items' n' => exact hne lower' items' n' rfl
        | format v w p n => rw [lowered_format] at he; cases he
        | _ => simp at he
      rw [coerce, coerce]
      · exact e.converted_lowered _
      · exact hne'
      · exact hne
  | _ => exact e.converted_lowered _

theorem applyUnary_lowered (op : UnaryOp) (e : Expr) (p : Position) :
    Checked.Matches Expr.lowered (e.applyUnary op p) (e.lowered.applyUnary op p) := by
  cases op with
  | not =>
    unfold applyUnary
    dsimp only
    rw [ty_lowered]
    split
    · exact .of_eq _ (by simp)
    · exact .error rfl
  | negate =>
    unfold applyUnary
    dsimp only
    rw [ty_lowered]
    split
    · exact .of_eq _ (by simp)
    · exact .error rfl

theorem applyPlus_lowered (e : Expr) (p : Position) :
    Checked.Matches Expr.lowered (e.applyPlus p) (e.lowered.applyPlus p) := by
  unfold applyPlus
  rw [ty_lowered]
  split
  · exact .ok e
  · exact .error rfl

theorem applyBinary_lowered (op : BinaryOp) (l r : Expr) (p : Position) :
    Checked.Matches Expr.lowered (l.applyBinary op r p) (l.lowered.applyBinary op r.lowered p) := by
  unfold applyBinary
  rw [ty_lowered, ty_lowered]
  dsimp only
  split
  · split
    · exact .of_eq _ (by simp)
    · exact .error rfl
  · split
    · exact .of_eq _ (by simp)
    · exact .error rfl
  · split
    · split
      · exact (l.coerce_lowered _).bind fun l => .of_eq _ (by simp)
      · exact .error rfl
    · exact .error rfl
  · split
    · exact .error rfl
    · refine (l.coerce_lowered _).bind fun l => (r.coerce_lowered _).bind fun r => ?_
      exact .of_eq _ (by simp)

theorem addressOf_lowered (e : Expr) (p : Position) :
    Checked.Matches Expr.lowered (e.addressOf p) (e.lowered.addressOf p) := by
  cases e with
  | place q n => exact .of_eq _ (by simp)
  | format v w q n => cases q <;> exact .error (by simp [Expr.ty, Expr.note])
  | _ => exact .error (by simp [Expr.ty, Expr.note])

theorem indexed_lowered (base index : Expr) :
    Checked.Matches Expr.lowered (base.indexed index) (base.lowered.indexed index.lowered) := by
  unfold indexed
  rw [ty_lowered, ty_lowered, pos_lowered, pos_lowered, place?_lowered]
  split
  · exact .error rfl
  · generalize base.ty = t
    cases base.place? with
    | none =>
      cases t with
      | basic b => cases b <;> exact .error rfl
      | _ => exact .error rfl
    | some p =>
      cases t with
      | array element bounds => exact .of_eq _ (by simp)
      | basic b =>
        cases b with
        | string => exact .of_eq _ (by simp)
        | _ => exact .error rfl
      | _ => exact .error rfl

theorem dereferenced_lowered (e : Expr) (p : Position) :
    Checked.Matches Expr.lowered (e.dereferenced p) (e.lowered.dereferenced p) := by
  unfold dereferenced
  rw [ty_lowered]
  split
  · exact .of_eq _ (by simp)
  · exact .error rfl

theorem evaluate_lowered (e : Expr) : Checked.Matches id e.evaluate e.lowered.evaluate := by
  unfold evaluate
  rw [fold?_lowered]
  cases e.fold? with
  | none => exact .error (by simp [Expr.pos])
  | some e =>
    cases e with
    | literal v n => exact .ok _
    | format v w q n => cases q <;> exact .error (by simp [Expr.pos, Expr.note])
    | _ => exact .error (by simp [Expr.pos, Expr.note])

theorem evaluateAs_lowered (e : Expr) (t : Ty) :
    Checked.Matches id (e.evaluateAs t) (e.lowered.evaluateAs t) :=
  (e.coerce_lowered t).bind fun e => e.evaluate_lowered.bind_id fun found => .ok found.1

@[simp] theorem shape_lowered (e : Expr) : e.lowered.shape = e.shape := by simp [shape]

theorem bound_lowered (name name' : String) (e : Expr) (b : Binding) :
    Checked.Matches Arg.lowered (e.bound name b) (e.lowered.bound name' b) := by
  cases b with
  | value ty => exact (e.coerce_lowered ty).bind fun e => .of_eq _ (by simp)
  | reference =>
    unfold bound
    dsimp only
    rw [place?_lowered]
    cases e.place? with
    | none => exact .error (by simp [CompileError.outline, ScopeError.outline])
    | some p => exact .of_eq _ (by simp)

theorem boundAll_lowered (name name' : String) (es : List Expr) (bs : List Binding) :
    Checked.Matches (List.map Arg.lowered) (boundAll name es bs)
      (boundAll name' (es.map Expr.lowered) bs) := by
  induction es generalizing bs with
  | nil => cases bs <;> exact .ok []
  | cons e es ih =>
    cases bs with
    | nil => exact .ok []
    | cons b bs =>
      rw [List.map_cons, boundAll, boundAll]
      exact (e.bound_lowered name name' b).bind fun a => (ih bs).bind fun args => .of_eq _ (by simp)

end Expr

namespace SetItem

def lowered : SetItem → SetItem
  | single e => single e.lowered
  | range low high => range low.lowered high.lowered

theorem ends_lowered (i : SetItem) : i.lowered.ends = i.ends.map Expr.lowered := by
  cases i <;> rfl

theorem elementType_lowered (ty : Option Ty) (es : List Expr) :
    elementType ty (es.map Expr.lowered) = elementType ty es := by
  induction es generalizing ty with
  | nil => cases ty <;> rfl
  | cons e es ih =>
    cases ty with
    | none => rw [List.map_cons, elementType, elementType, ih, Expr.ty_lowered]
    | some ty =>
      rw [List.map_cons, elementType, elementType, Expr.ty_lowered, Expr.pos_lowered]
      cases ty.common? e.ty with
      | none => rfl
      | some ty => exact ih _

theorem toExpr_lowered (element : Ty) (i : SetItem) :
    Checked.Matches Expr.lowered (i.toExpr element) (i.lowered.toExpr element) := by
  cases i with
  | single e => exact e.coerce_lowered element
  | range low high =>
    rw [SetItem.lowered, toExpr, toExpr]
    cases element.isOrdinal with
    | false => exact .error (by simp)
    | true =>
      refine (low.coerce_lowered element).bind fun l => (high.coerce_lowered element).bind fun h => ?_
      exact .of_eq _ (by simp)

theorem construct_lowered (items : List SetItem) (p : Position) :
    Checked.Matches Expr.lowered (construct items p) (construct (items.map SetItem.lowered) p) := by
  have hends : (items.map SetItem.lowered).flatMap ends = (items.flatMap ends).map Expr.lowered := by
    simp [List.flatMap_map, List.map_flatMap, ends_lowered]
  unfold construct
  rw [hends, elementType_lowered]
  refine (Matches.refl _).bind_id fun element => ?_
  refine (Matches.mapM (toExpr_lowered element) items).bind fun items => ?_
  exact .of_eq _ (by simp)

end SetItem

end Pascal
