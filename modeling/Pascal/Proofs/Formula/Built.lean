import Pascal.Proofs.Formula.Printed

/-!
# Building typed trees from formulas

A typed tree is built of a formula from the bottom up. The positions on the way only end up in the tree or
in the error: with other positions the same tree comes out, or the same error, apart from the positions.
-/

namespace Pascal

def Note.unplaced (n : Note) : Note := ⟨n.ty, default⟩

mutual

/-- The tree without its positions. -/
def Expr.unplaced : Expr → Expr
  | .literal v n => .literal v n.unplaced
  | .place p n => .place p.unplaced n.unplaced
  | .array lower items n => .array lower (unplacedExprs items) n.unplaced
  | .range low high n => .range low.unplaced high.unplaced n.unplaced
  | .address p n => .address p.unplaced n.unplaced
  | .unary op e n => .unary op e.unplaced n.unplaced
  | .binary op l r n => .binary op l.unplaced r.unplaced n.unplaced
  | .convert c e n => .convert c e.unplaced n.unplaced
  | .format value width none n => .format value.unplaced width.unplaced none n.unplaced
  | .format value width (some precision) n =>
    .format value.unplaced width.unplaced (some precision.unplaced) n.unplaced
  | .call callee name args n => .call callee name (unplacedArgs args) n.unplaced

def Place.unplaced : Place → Place
  | .var v => .var v
  | .element base index => .element base.unplaced index.unplaced
  | .charAt base index => .charAt base.unplaced index.unplaced
  | .deref pointer => .deref pointer.unplaced

def Arg.unplaced : Arg → Arg
  | .value e => .value e.unplaced
  | .reference p => .reference p.unplaced

def unplacedExprs : List Expr → List Expr
  | [] => []
  | e :: es => e.unplaced :: unplacedExprs es

def unplacedArgs : List Arg → List Arg
  | [] => []
  | a :: as => a.unplaced :: unplacedArgs as

end

/-- The error without its position. -/
def TypeError.unplaced : TypeError → TypeError
  | unconvertible source target _ => unconvertible source target default
  | nonIntegerIndex found _ => nonIntegerIndex found default
  | subrangeBound lower upper _ => subrangeBound lower upper default
  | arraySizeMismatch expected found _ => arraySizeMismatch expected found default
  | invalidOperands operator left right _ => invalidOperands operator left right default
  | invalidOperand operator operand _ => invalidOperand operator operand default
  | notConstant _ => notConstant default
  | notIndexable found _ => notIndexable found default
  | notAPointer found _ => notAPointer found default
  | notOrdinal found _ => notOrdinal found default
  | noValue name _ => noValue name default

/-- The same typed tree up to positions, or the same type error up to its position. -/
inductive SameTree : Checked Expr → Checked Expr → Prop
  | ok {e e' : Expr} (h : e.unplaced = e'.unplaced) : SameTree (.ok e) (.ok e')
  | error {t t' : TypeError} (h : t.unplaced = t'.unplaced) :
    SameTree (.error (.type t)) (.error (.type t'))

theorem SameTree.bind {x x' : Checked Expr} {f f' : Expr → Checked Expr} (h : SameTree x x')
    (hf : ∀ e e' : Expr, e.unplaced = e'.unplaced → SameTree (f e) (f' e')) :
    SameTree (x >>= f) (x' >>= f') := by
  cases h with
  | ok h => exact hf _ _ h
  | error h => exact .error h

namespace Expr

@[simp] theorem note_unplaced (e : Expr) : e.unplaced.note = e.note.unplaced := by
  fun_cases Expr.unplaced e <;> rfl

@[simp] theorem ty_unplaced (e : Expr) : e.unplaced.ty = e.ty := by
  rw [ty, note_unplaced]
  rfl

theorem ty_eq_of_unplaced {e e' : Expr} (h : e.unplaced = e'.unplaced) : e.ty = e'.ty := by
  rw [← ty_unplaced e, h, ty_unplaced]

theorem unplaced_retype (e : Expr) (t : Ty) : (e.retype t).unplaced = e.unplaced.retype t := by
  fun_cases Expr.unplaced e <;> rfl

variable {e e' l l' r r' : Expr}

theorem unplaced_applyUnary (op : UnaryOp) (h : e.unplaced = e'.unplaced) (p p' : Position) :
    SameTree (e.applyUnary op p) (e'.applyUnary op p') := by
  have hty := ty_eq_of_unplaced h
  cases op <;>
  · simp only [applyUnary, hty]
    split
    · exact .ok (by simp only [unplaced, h, Note.unplaced])
    · exact .error rfl

theorem unplaced_converted (h : e.unplaced = e'.unplaced) (t : Ty) :
    SameTree (e.converted t) (e'.converted t) := by
  have hty := ty_eq_of_unplaced h
  unfold converted convertTo?
  rw [hty]
  cases Conversion.between? e'.ty t with
  | none => exact .error rfl
  | some c =>
    cases hc : c.isRetype with
    | true =>
      refine .ok ?_
      simp only [hc, if_true]
      rw [unplaced_retype, unplaced_retype, h]
    | false => exact .ok (by simp [hc, unplaced, h, Note.unplaced])

/-- No operator applies to arrays. -/
theorem operandTypes?_ne_array {op : BinaryOp} {left right operand result : Ty}
    (h : operandTypes? op left right = some (operand, result)) (element : Ty) (bounds : Subrange) :
    operand ≠ .array element bounds := by
  rintro rfl
  have hwithin : ∀ {fits : Ty → Bool} {f : Ty → Ty × Ty},
      (do let ty ← left.common? right; if fits ty then some (f ty) else none) =
        some (.array element bounds, result) → ∃ ty, fits ty ∧ (f ty).1 = .array element bounds := by
    intro fits f h
    obtain ⟨ty, -, h⟩ := Option.bind_eq_some_iff.mp h
    split at h
    · next hfits => exact ⟨ty, hfits, by rw [Option.some.inj h]⟩
    · cases h
  cases op <;> simp only [operandTypes?] at h
  case add =>
    split at h
    · cases h
    · obtain ⟨ty, hfits, rfl⟩ := hwithin h
      cases hfits
  all_goals first
    | cases h
    | obtain ⟨ty, hfits, rfl⟩ := hwithin h
      cases hfits
    | obtain ⟨ty, hfits, h⟩ := hwithin h
      cases h

theorem unplaced_coerce (h : e.unplaced = e'.unplaced) {t : Ty}
    (ht : ∀ element bounds, t ≠ .array element bounds) : SameTree (e.coerce t) (e'.coerce t) := by
  have hcoerce (a : Expr) : a.coerce t = a.converted t := by
    cases t with
    | array element bounds => exact absurd rfl (ht element bounds)
    | _ => rw [coerce.eq_def]
  rw [hcoerce, hcoerce]
  exact unplaced_converted h t

theorem unplaced_binary {op : BinaryOp} {left right operand result : Ty}
    (htypes : operandTypes? op left right = some (operand, result)) (hl : l.unplaced = l'.unplaced)
    (hr : r.unplaced = r'.unplaced) (p p' : Position) :
    SameTree (do return .binary op (← l.coerce operand) (← r.coerce operand) ⟨result, p⟩)
      (do return .binary op (← l'.coerce operand) (← r'.coerce operand) ⟨result, p'⟩) := by
  have hne := operandTypes?_ne_array htypes
  refine (unplaced_coerce hl hne).bind fun a a' ha => (unplaced_coerce hr hne).bind fun b b' hb => ?_
  exact .ok (by simp only [unplaced, ha, hb, Note.unplaced])

theorem unplaced_applyBinary {op : BinaryOp} (hop : op ≠ .member) (hl : l.unplaced = l'.unplaced)
    (hr : r.unplaced = r'.unplaced) (p p' : Position) :
    SameTree (l.applyBinary op r p) (l'.applyBinary op r' p') := by
  have hlty := ty_eq_of_unplaced hl
  have hrty := ty_eq_of_unplaced hr
  have hshift : SameTree
      (if l.ty.isIntegral && r.ty.isIntegral then .ok (.binary op l r ⟨l.ty, p⟩)
        else .error (.type (.invalidOperands op.symbol l.ty r.ty p)))
      (if l'.ty.isIntegral && r'.ty.isIntegral then .ok (.binary op l' r' ⟨l'.ty, p'⟩)
        else .error (.type (.invalidOperands op.symbol l'.ty r'.ty p'))) := by
    rw [hlty, hrty]
    split
    · exact .ok (by simp only [unplaced, hl, hr, Note.unplaced])
    · exact .error rfl
  cases op with
  | member => exact absurd rfl hop
  | shl => exact hshift
  | shr => exact hshift
  | _ =>
    simp only [applyBinary, hlty, hrty]
    split
    · exact .error rfl
    · next htypes => exact unplaced_binary htypes hl hr p p'

end Expr

namespace Formula

variable {ctx : Context}

/-- The typed tree of a formula, built from the bottom up, the left operand first. -/
def build : Formula ctx Position → Checked Expr
  | literal l p => .ok (.literal l.value ⟨l.ty, p⟩)
  | var x p => .ok (.place (.var x.ref) ⟨x.ty, p⟩)
  | unary op e p => do (← e.build).applyUnary op p
  | binary op _ l r p => do
    let left ← l.build
    let right ← r.build
    left.applyBinary op right p

/-- Which tree is built does not depend on positions. -/
theorem sameTree_build {s t : Formula ctx Position} (h : s.bare = t.bare) : SameTree s.build t.build := by
  induction s generalizing t with
  | literal l p =>
    cases t <;> cases h
    exact .ok rfl
  | var x p =>
    cases t <;> cases h
    exact .ok rfl
  | unary op e p ih =>
    cases t with
    | unary op' e' p' =>
      simp only [bare, unary.injEq] at h
      obtain ⟨rfl, he, -⟩ := h
      exact (ih he).bind fun _ _ h => Expr.unplaced_applyUnary op h p p'
    | _ => cases h
  | binary op hop l r p ihl ihr =>
    cases t with
    | binary op' hop' l' r' p' =>
      simp only [bare, binary.injEq] at h
      obtain ⟨rfl, hl, hr, -⟩ := h
      refine (ihl hl).bind fun _ _ hl => (ihr hr).bind fun _ _ hr => ?_
      exact Expr.unplaced_applyBinary hop hl hr p p'
    | _ => cases h

end Formula

end Pascal
