import Pascal.Proofs.Typing.Build

/-! # Properties of all parts of a tree -/

namespace Pascal

mutual

/-- Whether all expressions in an expression have a property, and all places in it another one. -/
def Expr.all (f : Expr → Bool) (g : Place → Bool) : Expr → Bool
  | .literal v n => f (.literal v n)
  | .place p n => f (.place p n) && p.all f g
  | .array lower items n => f (.array lower items n) && allExprs f g items
  | .range low high n => f (.range low high n) && low.all f g && high.all f g
  | .address p n => f (.address p n) && p.all f g
  | .unary op e n => f (.unary op e n) && e.all f g
  | .binary op l r n => f (.binary op l r n) && l.all f g && r.all f g
  | .convert c e n => f (.convert c e n) && e.all f g
  | .format v w none n => f (.format v w none n) && v.all f g && w.all f g
  | .format v w (some p) n => f (.format v w (some p) n) && v.all f g && w.all f g && p.all f g
  | .call callee name args n => f (.call callee name args n) && allArgs f g args

def Place.all (f : Expr → Bool) (g : Place → Bool) : Place → Bool
  | .var v => g (.var v)
  | .element base index => g (.element base index) && base.all f g && index.all f g
  | .charAt base index => g (.charAt base index) && base.all f g && index.all f g
  | .deref pointer => g (.deref pointer) && pointer.all f g

def Arg.all (f : Expr → Bool) (g : Place → Bool) : Arg → Bool
  | .value e => e.all f g
  | .reference p => p.all f g

def allExprs (f : Expr → Bool) (g : Place → Bool) : List Expr → Bool
  | [] => true
  | e :: es => e.all f g && allExprs f g es

def allArgs (f : Expr → Bool) (g : Place → Bool) : List Arg → Bool
  | [] => true
  | a :: as => a.all f g && allArgs f g as

end

mutual

/-- Whether all statements in a statement have a property, and all expressions and places in it. -/
def Stmt.all (f : Expr → Bool) (g : Place → Bool) (h : Stmt → Bool) : Stmt → Bool
  | .block body p => h (.block body p) && allStmts f g h body
  | .assign target value p => h (.assign target value p) && target.all f g && value.all f g
  | .call callee name args p => h (.call callee name args p) && allArgs f g args
  | .ifThen c yes no p => h (.ifThen c yes no p) && c.all f g && yes.all f g h && allOption f g h no
  | .whileDo c body p => h (.whileDo c body p) && c.all f g && body.all f g h
  | .repeatUntil body c p => h (.repeatUntil body c p) && allStmts f g h body && c.all f g
  | .forDo counter first d last body p => h (.forDo counter first d last body p) &&
      counter.all f g && first.all f g && last.all f g && body.all f g h
  | .caseOf selector arms otherwise p => h (.caseOf selector arms otherwise p) &&
      selector.all f g && allArms f g h arms && allOption f g h otherwise
  | .breakLoop p => h (.breakLoop p)
  | .continueLoop p => h (.continueLoop p)
  | .exitRoutine p => h (.exitRoutine p)
  | .new target t p => h (.new target t p) && target.all f g
  | .dispose target p => h (.dispose target p) && target.all f g
  | .empty p => h (.empty p)

def Arm.all (f : Expr → Bool) (g : Place → Bool) (h : Stmt → Bool) : Arm → Bool
  | .mk _ body => body.all f g h

def allStmts (f : Expr → Bool) (g : Place → Bool) (h : Stmt → Bool) : List Stmt → Bool
  | [] => true
  | s :: ss => s.all f g h && allStmts f g h ss

def allArms (f : Expr → Bool) (g : Place → Bool) (h : Stmt → Bool) : List Arm → Bool
  | [] => true
  | a :: as => a.all f g h && allArms f g h as

def allOption (f : Expr → Bool) (g : Place → Bool) (h : Stmt → Bool) : Option Stmt → Bool
  | none => true
  | some s => s.all f g h

end

attribute [local simp] Expr.all Place.all Arg.all allExprs allArgs

variable {f : Expr → Bool} {g : Place → Bool}

theorem allExprs_iff {es : List Expr} : allExprs f g es ↔ ∀ e ∈ es, e.all f g := by
  induction es with
  | nil => simp [allExprs]
  | cons e es ih => simp [allExprs, ih]

theorem allArgs_iff {as : List Arg} : allArgs f g as ↔ ∀ a ∈ as, a.all f g := by
  induction as with
  | nil => simp [allArgs]
  | cons a as ih => simp [allArgs, ih]

theorem allStmts_iff {h : Stmt → Bool} {ss : List Stmt} :
    allStmts f g h ss ↔ ∀ s ∈ ss, s.all f g h := by
  induction ss with
  | nil => simp [allStmts]
  | cons s ss ih => simp [allStmts, ih]

theorem allArms_iff {h : Stmt → Bool} {as : List Arm} :
    allArms f g h as ↔ ∀ labels body, .mk labels body ∈ as → body.all f g h := by
  induction as with
  | nil => simp [allArms]
  | cons a as ih =>
    obtain ⟨labels, body⟩ := a
    simp only [allArms, Arm.all, Bool.and_eq_true, ih, List.mem_cons, Arm.mk.injEq]
    constructor
    · rintro ⟨h, hs⟩ labels' body' (⟨-, rfl⟩ | hm)
      · exact h
      · exact hs labels' body' hm
    · exact fun hs => ⟨hs labels body (.inl ⟨rfl, rfl⟩), fun l b hm => hs l b (.inr hm)⟩

namespace Expr

@[simp] theorem ty_retype (e : Expr) (t : Ty) : (e.retype t).ty = t := by cases e <;> rfl

/-- A property that does not depend on what an expression is taken for. -/
structure Blind (f : Expr → Bool) : Prop where
  retype : ∀ e t, f (retype t e) = f e
  literal : ∀ v n, f (.literal v n)
  place : ∀ p n, f (.place p n)
  convert : ∀ c e n, f (.convert c e n)
  array : ∀ lower items n, f (.array lower items n)
  range : ∀ low high n, f (.range low high n)

theorem all_retype (hf : Blind f) (e : Expr) (t : Ty) : (e.retype t).all f g = e.all f g := by
  have h := hf.retype e t
  cases e with
  | format v w p n => cases p <;> simp_all only [Expr.all, Expr.retype]
  | _ => simp_all only [Expr.all, Expr.retype]

theorem all_convertTo? (hf : Blind f) {e e' : Expr} {t : Ty} (h : e.convertTo? t = some e') :
    e'.all f g = e.all f g := by
  obtain ⟨c, -, rfl⟩ := convertTo?_eq_some.mp h
  split
  · exact all_retype hf e t
  · simp [Expr.all, hf.convert]

theorem all_fitted (hf : Blind f) {fit : Expr → Expr → Prop} {t : Ty} {es es' : List Expr}
    (h : Fitted fit t es es') (hfit : ∀ e e', fit e e' → e'.all f g = e.all f g) :
    allExprs f g es' = allExprs f g es := by
  induction h with
  | nil => rfl
  | range hlow hhigh _ ih =>
    simp only [allExprs, Expr.all, hf.range, hfit _ _ hlow, hfit _ _ hhigh, ih]
  | item he _ _ ih => simp only [allExprs, hfit _ _ he, ih]

theorem all_coerce (hf : Blind f) {e e' : Expr} {t : Ty} (h : e.coerce t = .ok e') :
    e'.all f g = e.all f g := by
  induction t generalizing e e' with
  | array element r ih =>
    rcases coerce_eq_ok h with h | ⟨lower, items, n, element', r', items', rfl, ht, -, -, hitems, h⟩
    · exact all_convertTo? hf h
    · cases ht
      rw [all_convertTo? hf h]
      simp only [Expr.all, hf.array, all_fitted hf hitems fun e e' he => ih he]
  | _ => exact all_convertTo? hf (converted_eq_ok.mp h)

/-- A place that an expression stands for has the parts of the expression. -/
theorem all_place (hf : Blind f) {e : Expr} {p : Place} (h : e.place? = some p) :
    p.all f g = e.all f g := by
  cases e <;> cases h
  simp [Expr.all, hf.place]

theorem all_indexed (hf : Blind f) {base index e : Expr} (h : base.indexed index = .ok e) :
    ∃ p, e = .place p e.note ∧ e.all f g = (g p && base.all f g && index.all f g) ∧
      ∀ v, p ≠ .var v := by
  obtain ⟨-, q, hq, ⟨element, bounds, -, rfl⟩ | ⟨-, rfl⟩⟩ := indexed_eq_ok h
  · exact ⟨_, rfl, by simp [Expr.all, Place.all, hf.place, all_place hf hq], by simp⟩
  · exact ⟨_, rfl, by simp [Expr.all, Place.all, hf.place, all_place hf hq], by simp⟩

theorem all_dereferenced (hf : Blind f) {pointer e : Expr} {p : Position}
    (h : pointer.dereferenced p = .ok e) : e.all f g = (g (.deref pointer) && pointer.all f g) := by
  obtain ⟨target, -, rfl⟩ := dereferenced_eq_ok h
  simp [Expr.all, Place.all, hf.place]

theorem all_addressOf (hf : Blind f) {target e : Expr} {p : Position}
    (h : target.addressOf p = .ok e) : e.all f g = (f e && target.all f g) := by
  obtain ⟨q, n, rfl, rfl⟩ := addressOf_eq_ok h
  simp [Expr.all, hf.place]

theorem all_applyUnary {op : UnaryOp} {operand e : Expr} {p : Position}
    (h : operand.applyUnary op p = .ok e) : e.all f g = (f e && operand.all f g) := by
  obtain ⟨-, rfl⟩ := applyUnary_eq_ok h
  rfl

theorem all_applyBinary (hf : Blind f) {op : BinaryOp} {left right e : Expr} {p : Position}
    (h : left.applyBinary op right p = .ok e) :
    e.all f g = (f e && left.all f g && right.all f g) := by
  obtain ⟨left', right', result, ho, rfl⟩ := applyBinary_eq_ok h
  cases ho with
  | shift => rfl
  | member _ hl => simp only [Expr.all, all_coerce hf hl]
  | common _ hl hr => simp only [Expr.all, all_coerce hf hl, all_coerce hf hr]

theorem all_construct (hf : Blind f) {items : List SetItem} {e : Expr} {p : Position}
    (h : SetItem.construct items p = .ok e) :
    e.all f g ↔ ∀ i ∈ items, ∀ e ∈ i.ends, e.all f g := by
  obtain ⟨element, es, -, hes, rfl⟩ := SetItem.construct_eq_ok h
  have hitem : ∀ i e, SetItem.Fits element i e → (e.all f g ↔ ∀ e ∈ i.ends, e.all f g) := by
    intro i e h
    cases h with
    | single h => simp [SetItem.ends, all_coerce hf h]
    | range _ hlow hhigh =>
      simp [SetItem.ends, Expr.all, hf.range, all_coerce hf hlow, all_coerce hf hhigh]
  simp only [Expr.all, hf.array, Bool.true_and, allExprs_iff]
  clear h
  induction hes with
  | nil => simp
  | cons h _ ih => simp only [List.forall_mem_cons, hitem _ _ h, ih]

/-- Arguments that are bound have the parts that they had before. -/
theorem all_boundAll (hf : Blind f) {name : String} {es : List Expr} {bs : List Binding}
    {bound : List Arg} (h : boundAll name es bs = .ok bound) (hlength : bs.length = es.length) :
    allArgs f g bound ↔ ∀ e ∈ es, e.all f g := by
  have hone : ∀ (e : Expr) b arg, e.bound name b = .ok arg → arg.all f g = e.all f g := by
    intro e b arg h
    cases b with
    | value ty =>
      obtain ⟨e', he', h⟩ := bind_eq_ok.mp h
      cases h
      exact all_coerce hf he'
    | reference =>
      simp only [Expr.bound] at h
      split at h <;> cases h
      next p hp => exact all_place hf hp
  induction es generalizing bs bound with
  | nil => cases h; simp [allArgs]
  | cons e es ih =>
    cases bs with
    | nil => cases hlength
    | cons b bs =>
      obtain ⟨arg, harg, h⟩ := bind_eq_ok.mp h
      obtain ⟨rest, hrest, h⟩ := bind_eq_ok.mp h
      cases h
      simp only [allArgs, Bool.and_eq_true, hone _ _ _ harg, ih hrest (by simpa using hlength),
        List.forall_mem_cons]

end Expr

end Pascal
