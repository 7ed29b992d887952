import Pascal.Machine.Exec
import Pascal.Proofs.Typing.Fold

/-!
# A folded expression is evaluated like the expression

Folding leaves the outcome of an evaluation as it is, on every machine: the same value or the same
fault, and the same machine afterwards.
-/

namespace Pascal

variable {d : Discipline} {a : Arena} {env : Env} {caller : Caller} {chain : Chain}

namespace Run

@[simp] theorem holding_pure {α : Type} (vs : List Value) (x : α) :
    holding vs (pure x) = pure x := rfl

theorem holding_liftFault {α : Type} (vs : List Value) (r : Except Fault α) :
    holding vs (liftFault r) = liftFault r := by cases r <;> rfl

theorem liftFault_of_toOption {α : Type} {x : Except Fault α} {v : α} (h : x.toOption = some v) :
    liftFault x = pure v := by
  cases x <;> cases h
  rfl

/-- A value without references has the same text everywhere. -/
theorem format_of_plain {v width : Value} {precision : Option Value} {x : Value} (hv : v.Plain)
    (h : (Value.format Value.constantText v width precision).toOption = some x) :
    Run.format v width precision = pure x := by
  have htext : ∀ w : World, w.render v = v.constantText := fun w => Value.showWith_of_plain hv _ _
  funext m
  have heq : Value.format m.world.render v width precision =
      Value.format Value.constantText v width precision := by
    cases v <;> cases precision <;> simp only [Value.format, htext]
  simp only [Run.format, heq]
  revert h
  cases Value.format Value.constantText v width precision with
  | ok text => rintro ⟨⟩; rfl
  | error f => rintro ⟨⟩

end Run

namespace Expr

theorem eval_of_literal? {e : Expr} {v : Value} (h : e.literal? = some v) :
    e.eval env caller chain = pure v := by
  cases e <;> cases h
  rfl

/-- The items of an array constructor that are known give their values. -/
theorem evalItems_of_itemValues? {items : List Expr} {vs : List Value}
    (h : itemValues? items = some vs) : evalItems env caller chain items = pure vs := by
  induction items generalizing vs with
  | nil => cases h; rfl
  | cons e items ih =>
    by_cases hr : ∃ low high n, e = .range low high n
    · obtain ⟨low, high, n, rfl⟩ := hr
      obtain ⟨lowest, hlow, h⟩ := Option.bind_eq_some_iff.mp h
      obtain ⟨highest, hhigh, h⟩ := Option.bind_eq_some_iff.mp h
      obtain ⟨xs, hxs, h⟩ := Option.bind_eq_some_iff.mp h
      obtain ⟨ys, hys, h⟩ := Option.bind_eq_some_iff.mp h
      cases h
      simp [evalItems, eval_of_literal? hlow, eval_of_literal? hhigh,
        Run.liftFault_of_toOption hxs, ih hys]
    · rw [itemValues?] at h
      · obtain ⟨x, hx, h⟩ := Option.bind_eq_some_iff.mp h
        obtain ⟨ys, hys, h⟩ := Option.bind_eq_some_iff.mp h
        cases h
        rw [evalItems]
        · simp [eval_of_literal? hx, ih hys]
        · exact fun low high n h => hr ⟨low, high, n, h⟩
      · exact fun low high n h => hr ⟨low, high, n, h⟩

/-- `and` and `or` of known operands, although the right one may not be looked at. -/
private theorem eval_lazy {op : BinaryOp} {l r : Expr} {n : Note} {x y v : Value}
    (hlazy : op.isLazy l.ty) (h : (Expr.binary op l r n).Typed d a) (hx : l.literal? = some x)
    (hy : r.literal? = some y) (hv : Value.binary op x y = .ok v) :
    (Expr.binary op l r n).eval env caller chain = pure v := by
  simp only [BinaryOp.isLazy, Bool.and_eq_true, Bool.or_eq_true, beq_iff_eq] at hlazy
  obtain ⟨hbool, hop⟩ := hlazy
  have hlty : l.ty = .boolean := by
    revert hbool
    cases l.ty with
    | basic b => cases b <;> simp [Ty.isBoolean]
    | _ => simp [Ty.isBoolean]
  obtain ⟨hl, hr, t, htakes, -⟩ := h
  have hsame : ∀ {lt rt : Ty}, op.Takes lt rt t → rt = lt := by
    intro lt rt h
    cases h with
    | shift hop' => rcases hop with rfl | rfl <;> simp at hop'
    | member => simp at hop
    | common => rfl
  have hrty : r.ty = .boolean := (hsame htakes).trans hlty
  have hxb := (hl.fits hx).type
  have hyb := (hr.fits hy).type
  rw [hlty] at hxb
  rw [hrty] at hyb
  obtain ⟨b, rfl⟩ := Value.eq_boolean hxb
  obtain ⟨c, rfl⟩ := Value.eq_boolean hyb
  rw [Expr.eval, eval_of_literal? hx, eval_of_literal? hy, hlty]
  rcases hop with rfl | rfl <;> cases b <;> cases c <;> cases hv <;> rfl

/-- A node that has a constant value gives that value. -/
theorem eval_of_constant? {e : Expr} {v : Value} (h : e.Typed d a) (hv : e.constant? = some v) :
    e.eval env caller chain = pure v := by
  cases e with
  | literal => cases hv; rfl
  | unary op e n =>
    obtain ⟨x, hx, hv⟩ := Option.bind_eq_some_iff.mp hv
    simp [Expr.eval, eval_of_literal? hx, Run.liftFault_of_toOption hv]
  | binary op l r n =>
    obtain ⟨x, hx, hv⟩ := Option.bind_eq_some_iff.mp hv
    obtain ⟨y, hy, hv⟩ := Option.bind_eq_some_iff.mp hv
    by_cases hlazy : op.isLazy l.ty
    · refine eval_lazy hlazy h hx hy ?_
      revert hv
      cases Value.binary op x y <;> simp [Except.toOption]
    · simp [Expr.eval, eval_of_literal? hx, eval_of_literal? hy, hlazy,
        Run.liftFault_of_toOption hv]
  | convert c e n =>
    obtain ⟨x, hx, hv⟩ := Option.bind_eq_some_iff.mp hv
    simp [Expr.eval, eval_of_literal? hx, Run.liftFault_of_toOption hv]
  | format x w p n =>
    obtain ⟨r, hr, hv⟩ := Option.bind_eq_some_iff.mp hv
    cases p with
    | none =>
      rw [Expr.Typed] at h
      obtain ⟨y, width, hy, hw, rfl⟩ := formatted?_eq_some.mp hr
      simp [Expr.eval, eval_of_literal? hy, eval_of_literal? hw,
        Run.format_of_plain (h.1.fits hy).plain hv]
    | some p =>
      rw [Expr.Typed] at h
      obtain ⟨y, width, places, hy, hw, hp, rfl⟩ := formattedReal?_eq_some.mp hr
      simp [Expr.eval, eval_of_literal? hy, eval_of_literal? hw, eval_of_literal? hp,
        Run.format_of_plain (h.1.fits hy).plain hv]
  | array lower items n =>
    obtain ⟨vs, hvs, hv⟩ := Option.bind_eq_some_iff.mp hv
    cases hv
    simp [Expr.eval, evalItems_of_itemValues? hvs]
  | range | place | address | call => cases hv

theorem eval_settle {e : Expr} (h : e.Typed d a) :
    e.settle.eval env caller chain = e.eval env caller chain := by
  unfold settle
  split
  · next v hv => exact (eval_of_constant? h hv).symm
  · rfl

/-- Only a range folds to a range. -/
theorem fold_ne_range {e : Expr} (h : ∀ low high n, e ≠ .range low high n) (low high : Expr)
    (n : Note) : e.fold ≠ .range low high n := by
  have hsettle : ∀ {e : Expr}, (∀ low high n, e ≠ .range low high n) →
      e.settle ≠ .range low high n := by
    intro e he
    unfold settle
    split
    · simp
    · exact he low high n
  cases e with
  | range low high n => exact absurd rfl (h low high n)
  | format v w p n => cases p <;> exact hsettle (by simp)
  | array | unary | binary | convert => exact hsettle (by simp)
  | _ => simp [Expr.fold]

/-- Whether an item of an array constructor is evaluated like its folded form. -/
private def SameItem (env : Env) (caller : Caller) (chain : Chain) (e : Expr) : Prop :=
  ((∀ low high n, e ≠ .range low high n) →
    e.fold.eval env caller chain = e.eval env caller chain) ∧
  ∀ low high n, e = .range low high n →
    low.fold.eval env caller chain = low.eval env caller chain ∧
      high.fold.eval env caller chain = high.eval env caller chain

private theorem evalItems_fold {items : List Expr}
    (h : ∀ e ∈ items, SameItem env caller chain e) :
    evalItems env caller chain (foldExprs items) = evalItems env caller chain items := by
  induction items with
  | nil => rfl
  | cons e items ih =>
    obtain ⟨⟨he, hr⟩, hitems⟩ := List.forall_mem_cons.mp h
    rw [foldExprs]
    by_cases hrange : ∃ low high n, e = .range low high n
    · obtain ⟨low, high, n, rfl⟩ := hrange
      obtain ⟨hl, hh⟩ := hr low high n rfl
      simp only [Expr.fold, evalItems, hl, hh, ih hitems]
    · have hne : ∀ low high n, e ≠ .range low high n := fun low high n h => hrange ⟨low, high, n, h⟩
      rw [evalItems, evalItems, he hne, ih hitems]
      · exact hne
      · exact fold_ne_range hne

private theorem evalArgs_fold {args : List Arg}
    (h : ∀ arg ∈ args, arg.fold.pass env caller chain = arg.pass env caller chain) :
    evalArgs env caller chain (foldArgs args) = evalArgs env caller chain args := by
  induction args with
  | nil => rfl
  | cons arg args ih =>
    obtain ⟨harg, hargs⟩ := List.forall_mem_cons.mp h
    rw [foldArgs, evalArgs, evalArgs, harg, ih hargs]

private theorem eval_fold_all :
    (∀ e : Expr, (e.Typed d a → e.fold.eval env caller chain = e.eval env caller chain) ∧
      ∀ element, e.ItemTyped d a element → SameItem env caller chain e) ∧
    (∀ (p : Place) t, p.Typed d a t →
      p.fold.resolve env caller chain = p.resolve env caller chain) ∧
    ∀ (arg : Arg) t mode, arg.Typed d a t mode →
      arg.fold.pass env caller chain = arg.pass env caller chain := by
  have hitem : ∀ {e : Expr}, (∀ low high n, e ≠ .range low high n) →
      (e.Typed d a → e.fold.eval env caller chain = e.eval env caller chain) →
      (e.Typed d a → e.fold.eval env caller chain = e.eval env caller chain) ∧
      ∀ element, e.ItemTyped d a element → SameItem env caller chain e := by
    refine fun hr he => ⟨he, fun element ht => ⟨fun _ => he (ht.typed hr).1, ?_⟩⟩
    exact fun low high n h => absurd h (hr low high n)
  have hfolded : ∀ {e e' : Expr}, e.fold = e'.settle → e.Typed d a →
      (e'.Typed d a → e'.eval env caller chain = e.eval env caller chain) → e'.Typed d a →
      e.fold.eval env caller chain = e.eval env caller chain := by
    intro e e' hf he h ht
    rw [hf, eval_settle ht, h ht]
  refine Expr.induction ?literal ?place ?array ?range ?address ?unary ?binary ?convert ?format
    ?formatReal ?call ?var ?element ?charAt ?deref ?value ?reference
  case literal => exact fun v n => hitem (by simp) fun _ => rfl
  case place =>
    refine fun p n ih => hitem (by simp) ?_
    rintro ⟨t, hp, -⟩
    simp only [Expr.fold, Expr.eval, ih t hp]
  case array =>
    refine fun lower items n ih => hitem (by simp) fun h => ?_
    obtain ⟨element, r, ht, ha, hi, hb⟩ := id h
    have hitems := evalItems_fold fun e he => (ih e he).2 element (itemsTyped_iff.mp hi e he)
    refine hfolded rfl h (fun _ => by simp only [Expr.eval, hitems]) ?_
    refine ⟨element, r, ht, fun hbounds => ?_, itemsTyped_iff.mpr ?_, hb⟩
    · rw [foldExprs_eq, List.length_map]
      exact ha hbounds
    · rw [foldExprs_eq]
      intro e he
      obtain ⟨e, hmem, rfl⟩ := List.mem_map.mp he
      exact (itemsTyped_iff.mp hi e hmem).fold
  case range =>
    intro low high n ihl ihh
    refine ⟨False.elim, fun element h => ⟨fun h => absurd rfl (h low high n), ?_⟩⟩
    rintro low high n ⟨⟩
    exact ⟨ihl.1 h.2.1, ihh.1 h.2.2.2.1⟩
  case address =>
    refine fun p n ih => hitem (by simp) ?_
    rintro ⟨t, hp, -⟩
    simp only [Expr.fold, Expr.eval, ih t hp]
  case unary =>
    refine fun op e n ih => hitem (by simp) fun h => ?_
    obtain ⟨he, hop, hb⟩ := id h
    refine hfolded rfl h (fun _ => by simp only [Expr.eval, ih.1 he]) ?_
    exact ⟨he.fold, by simpa using hop, by simpa using hb⟩
  case binary =>
    refine fun op l r n ihl ihr => hitem (by simp) fun h => ?_
    obtain ⟨hl, hr, t, hop, hb⟩ := id h
    refine hfolded rfl h (fun _ => by simp only [Expr.eval, ihl.1 hl, ihr.1 hr, ty_fold]) ?_
    exact ⟨hl.fold, hr.fold, t, by simpa using hop, hb⟩
  case convert =>
    refine fun c e n ih => hitem (by simp) fun h => ?_
    obtain ⟨he, t, hc, ht, hb⟩ := id h
    refine hfolded rfl h (fun _ => by simp only [Expr.eval, ih.1 he]) ?_
    exact ⟨he.fold, t, by simpa using hc, ht, hb⟩
  case format =>
    refine fun v w n ihv ihw => hitem (by simp) fun h => ?_
    have h' := h
    rw [Expr.Typed] at h'
    obtain ⟨hv, hw, hwty, hb⟩ := h'
    refine hfolded (by rw [Expr.fold]) h (fun _ => by simp only [Expr.eval, ihv.1 hv, ihw.1 hw]) ?_
    rw [Expr.Typed]
    exact ⟨hv.fold, hw.fold, by simpa using hwty, hb⟩
  case formatReal =>
    refine fun v w p n ihv ihw ihp => hitem (by simp) fun h => ?_
    have h' := h
    rw [Expr.Typed] at h'
    obtain ⟨hv, hw, hwty, hp, hpty, hb⟩ := h'
    refine hfolded (by rw [Expr.fold]) h
      (fun _ => by simp only [Expr.eval, ihv.1 hv, ihw.1 hw, ihp.1 hp]) ?_
    rw [Expr.Typed]
    exact ⟨hv.fold, hw.fold, by simpa using hwty, hp.fold, by simpa using hpty, hb⟩
  case call =>
    refine fun callee name args n ih => hitem (by simp) ?_
    rintro ⟨hargs, -⟩
    have hpass := evalArgs_fold fun arg hm => by
      obtain ⟨t, mode, ht⟩ := typed_of_argsTyped hargs arg hm
      exact ih arg hm t mode ht
    simp only [Expr.fold, Expr.eval, hpass]
  case var => exact fun v t h => rfl
  case element =>
    rintro base index ihb ihi t ⟨hi, -, r, hb⟩
    simp only [Place.fold, Place.resolve, ihi.1 hi, ihb _ hb]
  case charAt =>
    rintro base index ihb ihi t ⟨hi, -, hb, -⟩
    simp only [Place.fold, Place.resolve, ihi.1 hi, ihb _ hb]
  case deref =>
    rintro pointer ih t ⟨hp, -⟩
    simp only [Place.fold, Place.resolve, ih.1 hp]
  case value =>
    rintro e ih t mode ⟨-, he, -⟩
    simp only [Arg.fold, Arg.pass, ih.1 he]
  case reference =>
    rintro p ih t mode ⟨-, u, hp, -⟩
    simp only [Arg.fold, Arg.pass, ih u hp]

theorem Typed.eval_fold {e : Expr} (h : e.Typed d a) :
    e.fold.eval env caller chain = e.eval env caller chain := (eval_fold_all.1 e).1 h

end Expr

theorem Place.Typed.resolve_fold {p : Place} {t : Ty} (h : p.Typed d a t) :
    p.fold.resolve env caller chain = p.resolve env caller chain := Expr.eval_fold_all.2.1 p t h

theorem Expr.evalArgs_fold_of_typed {further : Option (Ty × ParamMode)} {params : List Parameter}
    {args : List Arg} (h : argsTyped d a further args params) :
    evalArgs env caller chain (foldArgs args) = evalArgs env caller chain args :=
  Expr.evalArgs_fold fun arg hm => by
    obtain ⟨t, mode, ht⟩ := typed_of_argsTyped h arg hm
    exact Expr.eval_fold_all.2.2 arg t mode ht

end Pascal
