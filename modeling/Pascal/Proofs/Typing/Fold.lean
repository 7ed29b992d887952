import Pascal.Proofs.Tree.Induction
import Pascal.Proofs.Typing.Expr

/-!
# Folding keeps types

A node that becomes a literal becomes one of its own type, whose value refers to no storage.
-/

namespace Pascal

variable {d : Discipline} {a : Arena}

theorem Gives.ok {α : Type} {x : Except Fault α} {P : α → Prop} {v : α} (h : Gives x P)
    (hv : x.toOption = some v) : P v := by
  cases x <;> cases hv
  exact h

theorem UnaryOp.Takes.basic {op : UnaryOp} {t : Ty} (h : op.Takes t) : ∃ b, t = .basic b := by
  cases t with
  | basic b => exact ⟨b, rfl⟩
  | _ => cases op <;> simp [UnaryOp.Takes, Ty.isBoolean, Ty.isIntegral, Ty.isNumeric] at h

theorem BinaryOp.result?_basic {op : BinaryOp} {t result : Ty} (h : op.result? t = some result) :
    ∃ b, result = .basic b := by
  cases t with
  | basic b => cases op <;> cases b <;> cases h <;> exact ⟨_, rfl⟩
  | _ => cases op <;> simp [BinaryOp.result?, Ty.isNumeric, Ty.isIntegral, Ty.isBoolean,
      Ty.isBasic] at h <;> exact ⟨_, h.symm⟩

theorem BinaryOp.Takes.basic {op : BinaryOp} {l r t : Ty} (h : op.Takes l r t) :
    ∃ b, t = .basic b := by
  cases h with
  | shift _ hl =>
    cases l with
    | basic b => exact ⟨b, rfl⟩
    | _ => cases hl
  | member => exact ⟨_, rfl⟩
  | common h => exact result?_basic h

namespace Value

variable {cells : List Ty} {v w : Value}

/-- A type that allows a value of a basic type allows all others of that type. -/
theorem HasType.of_basic {t : Ty} {b : Basic} (h : v.HasType cells t) (hv : v.basic? = some b)
    (hw : w.basic? = some b) : w.HasType cells t := by
  cases t with
  | basic b' => exact hw.trans (hv.symm.trans h)
  | array element r => obtain ⟨lower, items, rfl, -⟩ := h; cases hv
  | pointer t => obtain ⟨target, rfl, -⟩ := h; cases hv
  | varargs | any => trivial
  | text => obtain ⟨file, rfl⟩ := h; cases hv
  | nil => cases h; cases hv

theorem asOrdinal_eq_ok {n : Int} (h : v.asOrdinal = .ok n) :
    ∃ b, v.basic? = some b ∧ (Ty.basic b).isOrdinal := by
  cases v <;> cases h <;> exact ⟨_, rfl, rfl⟩

/-- All ordinals of a range are of the type of its ends. -/
theorem expandRange_eq_ok {t : Ty} {vs : List Value} (h : expandRange v w = .ok vs)
    (hv : v.HasType cells t) : ∀ x ∈ vs, x.HasType cells t ∧ x.Plain := by
  obtain ⟨first, hfirst, h⟩ := bind_eq_ok.mp h
  obtain ⟨last, -, h⟩ := bind_eq_ok.mp h
  obtain ⟨b, hb, ho⟩ := asOrdinal_eq_ok hfirst
  have hgives := ordinalsFrom_gives hb ho (last - first + 1).toNat first [] (by simp)
  rw [h] at hgives
  exact fun x hx => ⟨hv.of_basic hb (hgives x hx), plain_of_basic (hgives x hx)⟩

theorem fits_of_basic {t : Ty} {b : Basic} (ht : t = .basic b)
    (h : v.HasType [] (t.outline d.bounds)) : v.Fits d t where
  plain := by rw [ht] at h; exact plain_of_basic h
  tame := ht ▸ .basic b
  type := h

theorem Fits.becomes {t t' : Ty} (h : v.Fits d t) (ht : t.Becomes d t') : v.Fits d t' :=
  ⟨h.plain, ht.tame h.tame, ht.hasType h.tame h.type⟩

end Value

theorem Conversion.apply_plain {c : Conversion} {v w : Value} (h : c.apply v = .ok w)
    (hv : v.Plain) : w.Plain := by
  induction c generalizing v w with
  | identity | nilToPointer | toAny => cases h; exact hv
  | widen source target =>
    simp only [apply, widened] at h
    split at h
    · cases h; rfl
    · obtain ⟨_, -, h⟩ := bind_eq_ok.mp h; cases h; rfl
    · cases h; rfl
    · obtain ⟨_, -, h⟩ := bind_eq_ok.mp h; cases h; rfl
    · cases h; exact hv
  | charToString => obtain ⟨_, -, h⟩ := bind_eq_ok.mp h; cases h; rfl
  | elements inner ih =>
    simp only [apply] at h
    split at h
    · next lower items =>
      obtain ⟨items', hitems, h'⟩ := bind_eq_ok.mp h
      cases h'
      clear h
      rw [Value.plain_array] at hv ⊢
      induction items generalizing items' with
      | nil => cases hitems; simp
      | cons x xs ihx =>
        rw [List.mapM_cons] at hitems
        obtain ⟨y, hy, hitems⟩ := bind_eq_ok.mp hitems
        obtain ⟨ys, hys, hitems⟩ := bind_eq_ok.mp hitems
        cases hitems
        obtain ⟨hx, hxs⟩ := List.forall_mem_cons.mp hv
        exact List.forall_mem_cons.mpr ⟨ih hy hx, ihx hxs ys hys⟩
    · cases h

namespace Expr

theorem Typed.fits {e : Expr} {v : Value} (h : e.Typed d a) (hv : e.literal? = some v) :
    v.Fits d e.ty := by
  cases e <;> cases hv
  exact ⟨h.1, h.2.1, h.2.2⟩

theorem itemValues?_fits {element : Ty} {items : List Expr} {vs : List Value}
    (h : itemValues? items = some vs) (hitems : ∀ e ∈ items, e.ItemTyped d a element) :
    (∀ v ∈ vs, v.Plain ∧ v.HasType [] (element.outline d.bounds)) ∧
      (d.bounds → vs.length = items.length) := by
  induction items generalizing vs with
  | nil => cases h; simp
  | cons e items ih =>
    obtain ⟨he, hrest⟩ := List.forall_mem_cons.mp hitems
    by_cases hr : ∃ low high n, e = .range low high n
    · obtain ⟨low, high, n, rfl⟩ := hr
      obtain ⟨hb, hl, hlty, -, -, -⟩ := he
      obtain ⟨lowest, hlow, h⟩ := Option.bind_eq_some_iff.mp h
      obtain ⟨highest, hhigh, h⟩ := Option.bind_eq_some_iff.mp h
      obtain ⟨xs, hxs, h⟩ := Option.bind_eq_some_iff.mp h
      obtain ⟨ys, hys, h⟩ := Option.bind_eq_some_iff.mp h
      cases h
      have hxs : Value.expandRange lowest highest = .ok xs := by
        revert hxs
        cases Value.expandRange lowest highest <;> simp [Except.toOption]
      have hfits := Value.expandRange_eq_ok hxs (hlty ▸ (hl.fits hlow).type)
      refine ⟨fun v hv => ?_, fun hb' => by simp [d.not_bounds hb] at hb'⟩
      rcases List.mem_append.mp hv with hv | hv
      · exact ⟨(hfits v hv).2, (hfits v hv).1⟩
      · exact (ih hys hrest).1 v hv
    · have hr : ∀ low high n, e ≠ .range low high n := fun low high n h => hr ⟨low, high, n, h⟩
      rw [itemValues?] at h
      · obtain ⟨x, hx, h⟩ := Option.bind_eq_some_iff.mp h
        obtain ⟨ys, hys, h⟩ := Option.bind_eq_some_iff.mp h
        cases h
        obtain ⟨he, hty⟩ := he.typed hr
        have hfits := he.fits hx
        refine ⟨List.forall_mem_cons.mpr ⟨⟨hfits.plain, hty ▸ hfits.type⟩, (ih hys hrest).1⟩, ?_⟩
        exact fun hb => by simp [(ih hys hrest).2 hb]
      · exact hr

theorem formatted?_eq_some {v w : Expr} {n : Note} {r : Except Fault Value} :
    (format v w none n).formatted? = some r ↔ ∃ x width, v.literal? = some x ∧
      w.literal? = some width ∧ Value.format Value.constantText x width none = r := by
  simp [formatted?, Option.bind_eq_some_iff]

theorem formattedReal?_eq_some {v w p : Expr} {n : Note} {r : Except Fault Value} :
    (format v w (some p) n).formatted? = some r ↔ ∃ x width places, v.literal? = some x ∧
      w.literal? = some width ∧ p.literal? = some places ∧
        Value.format Value.constantText x width (some places) = r := by
  simp [formatted?, Option.bind_eq_some_iff]
  grind

/-- The constant value of a node is of the type of the node. -/
theorem constant?_fits {e : Expr} {v : Value} (h : e.Typed d a) (hv : e.constant? = some v) :
    v.Fits d e.ty := by
  cases e with
  | literal => cases hv; exact ⟨h.1, h.2.1, h.2.2⟩
  | unary op e n =>
    obtain ⟨x, hx, hv⟩ := Option.bind_eq_some_iff.mp hv
    obtain ⟨he, hop, hb⟩ := h
    obtain ⟨b, hty⟩ := hop.basic
    have hx := (he.fits hx).type
    rw [hty] at hx hop
    have hgives := (Value.unary_gives hop hx).ok hv
    exact (Value.fits_of_basic hty (by rw [hty]; exact hgives)).becomes hb
  | binary op l r n =>
    obtain ⟨x, hx, hv⟩ := Option.bind_eq_some_iff.mp hv
    obtain ⟨y, hy, hv⟩ := Option.bind_eq_some_iff.mp hv
    obtain ⟨hl, hr, t, hop, hb⟩ := h
    obtain ⟨b, hty⟩ := hop.basic
    have hgives := (Value.binary_gives hop (hl.fits hx).type (hr.fits hy).type).ok hv
    exact (Value.fits_of_basic hty hgives).becomes hb
  | convert c e n =>
    obtain ⟨x, hx, hv⟩ := Option.bind_eq_some_iff.mp hv
    obtain ⟨he, t, hc, ht, hb⟩ := h
    have hfits := he.fits hx
    have happly : c.apply x = .ok v := by
      revert hv
      cases c.apply x <;> simp [Except.toOption]
    have hgives := Conversion.apply_gives (Conversion.converts hc) hfits.tame ht hfits.type
    rw [happly] at hgives
    exact Value.Fits.becomes ⟨Conversion.apply_plain happly hfits.plain, ht, hgives⟩ hb
  | format x w p n =>
    obtain ⟨r, hr, hv⟩ := Option.bind_eq_some_iff.mp hv
    cases p with
    | none =>
      rw [Expr.Typed] at h
      obtain ⟨-, hw, hwty, hb⟩ := h
      obtain ⟨_, width, -, hwidth, rfl⟩ := formatted?_eq_some.mp hr
      have hwidth := (hw.fits hwidth).type
      rw [hwty] at hwidth
      have hgives := (Value.format_gives _ hwidth (by simp)).ok hv
      exact (Value.fits_of_basic rfl hgives).becomes hb
    | some p =>
      rw [Expr.Typed] at h
      obtain ⟨-, hw, hwty, hp, hpty, hb⟩ := h
      obtain ⟨_, width, places, -, hwidth, hplaces, rfl⟩ := formattedReal?_eq_some.mp hr
      have hwidth := (hw.fits hwidth).type
      rw [hwty] at hwidth
      have hplaces := (hp.fits hplaces).type
      rw [hpty] at hplaces
      have hgives := (Value.format_gives _ hwidth (by rintro q ⟨⟩; exact hplaces)).ok hv
      exact (Value.fits_of_basic rfl hgives).becomes hb
  | array lower items n =>
    obtain ⟨vs, hvs, hv⟩ := Option.bind_eq_some_iff.mp hv
    cases hv
    obtain ⟨element, r, ht, ha, hitems, hb⟩ := h
    obtain ⟨hvs, hlength⟩ := itemValues?_fits hvs (itemsTyped_iff.mp hitems)
    refine Value.Fits.becomes ⟨?_, Ty.Tame.array.mpr ht, lower, vs, rfl, ?_, fun v hv => (hvs v hv).2⟩ hb
    · exact Value.plain_array.mpr fun v hv => (hvs v hv).1
    · cases hbounds : d.bounds with
      | false => exact fun h => by cases h
      | true =>
        rw [if_pos rfl, hlength hbounds]
        exact ha hbounds
  | range | place | address | call => cases hv

theorem Typed.settle {e : Expr} (h : e.Typed d a) : e.settle.Typed d a := by
  unfold Expr.settle
  split
  · next v hv =>
    have hfits := constant?_fits h hv
    exact ⟨hfits.plain, hfits.tame, hfits.type⟩
  · exact h

/-- A settled node is a literal exactly if it has a constant value. -/
theorem literal?_settle (e : Expr) : e.settle.literal? = e.constant? := by
  unfold settle
  split
  · next v hv => exact hv.symm
  · next hv =>
    rw [hv]
    cases e <;> first | rfl | cases hv

@[simp] theorem note_settle (e : Expr) : e.settle.note = e.note := by
  unfold Expr.settle
  split <;> rfl

@[simp] theorem note_fold (e : Expr) : e.fold.note = e.note := by
  cases e with
  | format v w p n => cases p <;> exact note_settle _
  | array | unary | binary | convert => exact note_settle _
  | _ => rfl

@[simp] theorem ty_fold (e : Expr) : e.fold.ty = e.ty := congrArg Note.ty (note_fold e)

theorem foldExprs_eq (es : List Expr) : foldExprs es = es.map Expr.fold := by
  induction es with
  | nil => rfl
  | cons e es ih => rw [foldExprs, ih, List.map_cons]

theorem foldArgs_eq (as : List Arg) : foldArgs as = as.map Arg.fold := by
  induction as with
  | nil => rfl
  | cons a as ih => rw [foldArgs, ih, List.map_cons]

private theorem argsTyped_fold {further : Option (Ty × ParamMode)} {args : List Arg}
    {params : List Parameter} (hargs : ∀ arg ∈ args, ∀ t mode, arg.Typed d a t mode →
      arg.fold.Typed d a t mode) (h : argsTyped d a further args params) :
    argsTyped d a further (foldArgs args) params := by
  induction args generalizing params with
  | nil => exact h
  | cons arg args ih =>
    obtain ⟨harg, hargs⟩ := List.forall_mem_cons.mp hargs
    cases params with
    | nil =>
      obtain ⟨⟨t, mode, hf, ht⟩, hrest⟩ := h
      exact ⟨⟨t, mode, hf, harg t mode ht⟩, ih hargs hrest⟩
    | cons p params => exact ⟨harg _ _ h.1, ih hargs h.2⟩

private theorem itemTyped_of {e : Expr} (he : e.Typed d a → e.fold.Typed d a)
    (hr : ∀ low high n, e = .range low high n → (low.Typed d a → low.fold.Typed d a) ∧
      (high.Typed d a → high.fold.Typed d a)) {element : Ty} (h : e.ItemTyped d a element) :
    e.fold.ItemTyped d a element := by
  by_cases hrange : ∃ low high n, e = .range low high n
  · obtain ⟨low, high, n, rfl⟩ := hrange
    obtain ⟨hb, hl, hlty, hh, hhty, hn⟩ := h
    obtain ⟨ihl, ihh⟩ := hr low high n rfl
    exact ⟨hb, ihl hl, by simpa using hlty, ihh hh, by simpa using hhty, hn⟩
  · obtain ⟨he', hty⟩ := h.typed fun low high n h => hrange ⟨low, high, n, h⟩
    exact .of_typed (he he') (by simpa using hty)

private theorem typed_fold_all : (∀ e : Expr, (e.Typed d a → e.fold.Typed d a) ∧
      ∀ element, e.ItemTyped d a element → e.fold.ItemTyped d a element) ∧
    (∀ (p : Place) t, p.Typed d a t → p.fold.Typed d a t) ∧
    ∀ (arg : Arg) t mode, arg.Typed d a t mode → arg.fold.Typed d a t mode := by
  have hitem : ∀ {e : Expr}, (e.Typed d a → e.fold.Typed d a) →
      (∀ low high n, e ≠ .range low high n) → (e.Typed d a → e.fold.Typed d a) ∧
      ∀ element, e.ItemTyped d a element → e.fold.ItemTyped d a element :=
    fun he hr => ⟨he, fun _ => itemTyped_of he fun low high n h => absurd h (hr low high n)⟩
  refine Expr.induction ?literal ?place ?array ?range ?address ?unary ?binary ?convert ?format
    ?formatReal ?call ?var ?element ?charAt ?deref ?value ?reference
  case literal => exact fun v n => hitem id (by simp)
  case place =>
    refine fun p n ih => hitem ?_ (by simp)
    rintro ⟨t, hp, hb⟩
    exact ⟨t, ih t hp, hb⟩
  case array =>
    refine fun lower items n ih => hitem ?_ (by simp)
    rintro ⟨element, r, ht, ha, hi, hb⟩
    refine Typed.settle ⟨element, r, ht, fun hbounds => ?_, itemsTyped_iff.mpr ?_, hb⟩
    · rw [foldExprs_eq, List.length_map]
      exact ha hbounds
    · rw [foldExprs_eq]
      intro e he
      obtain ⟨e, hmem, rfl⟩ := List.mem_map.mp he
      exact (ih e hmem).2 element (itemsTyped_iff.mp hi e hmem)
  case range =>
    intro low high n ihl ihh
    refine ⟨False.elim, fun element => itemTyped_of (e := .range low high n) False.elim ?_⟩
    rintro low high n ⟨⟩
    exact ⟨ihl.1, ihh.1⟩
  case address =>
    refine fun p n ih => hitem ?_ (by simp)
    rintro ⟨t, hp, ht, hb⟩
    exact ⟨t, ih t hp, ht, hb⟩
  case unary =>
    refine fun op e n ih => hitem ?_ (by simp)
    rintro ⟨he, hop, hb⟩
    exact Typed.settle ⟨ih.1 he, by simpa using hop, by simpa using hb⟩
  case binary =>
    refine fun op l r n ihl ihr => hitem ?_ (by simp)
    rintro ⟨hl, hr, t, hop, hb⟩
    exact Typed.settle ⟨ihl.1 hl, ihr.1 hr, t, by simpa using hop, hb⟩
  case convert =>
    refine fun c e n ih => hitem ?_ (by simp)
    rintro ⟨he, t, hc, ht, hb⟩
    exact Typed.settle ⟨ih.1 he, t, by simpa using hc, ht, hb⟩
  case format =>
    refine fun v w n ihv ihw => hitem ?_ (by simp)
    rw [Expr.fold]
    intro h
    rw [Expr.Typed] at h
    obtain ⟨hv, hw, hwty, hb⟩ := h
    refine Typed.settle ?_
    rw [Expr.Typed]
    exact ⟨ihv.1 hv, ihw.1 hw, by simpa using hwty, hb⟩
  case formatReal =>
    refine fun v w p n ihv ihw ihp => hitem ?_ (by simp)
    rw [Expr.fold]
    intro h
    rw [Expr.Typed] at h
    obtain ⟨hv, hw, hwty, hp, hpty, hb⟩ := h
    refine Typed.settle ?_
    rw [Expr.Typed]
    exact ⟨ihv.1 hv, ihw.1 hw, by simpa using hwty, ihp.1 hp, by simpa using hpty, hb⟩
  case call =>
    refine fun callee name args n ih => hitem ?_ (by simp)
    rintro ⟨hargs, t, hr, ht, hb⟩
    exact ⟨argsTyped_fold ih hargs, t, hr, ht, hb⟩
  case var => exact fun v t h => h
  case element =>
    rintro base index ihb ihi t ⟨hi, hint, r, hb⟩
    exact ⟨ihi.1 hi, by simpa using hint, r, ihb _ hb⟩
  case charAt =>
    rintro base index ihb ihi t ⟨hi, hint, hb, ht⟩
    exact ⟨ihi.1 hi, by simpa using hint, ihb _ hb, ht⟩
  case deref =>
    rintro pointer ih t ⟨hp, ht⟩
    exact ⟨ih.1 hp, by simpa using ht⟩
  case value =>
    rintro e ih t mode ⟨hm, he, ht⟩
    exact ⟨hm, ih.1 he, by simpa using ht⟩
  case reference =>
    rintro p ih t mode ⟨hm, u, hp, hu⟩
    exact ⟨hm, u, ih u hp, hu⟩

theorem Typed.fold {e : Expr} (h : e.Typed d a) : e.fold.Typed d a := (typed_fold_all.1 e).1 h

theorem ItemTyped.fold {element : Ty} {e : Expr} (h : e.ItemTyped d a element) :
    e.fold.ItemTyped d a element := (typed_fold_all.1 e).2 element h

end Expr

theorem Place.Typed.fold {p : Place} {t : Ty} (h : p.Typed d a t) : p.fold.Typed d a t :=
  Expr.typed_fold_all.2.1 p t h

theorem Expr.argsTyped.fold {further : Option (Ty × ParamMode)} {args : List Arg}
    {params : List Parameter} (h : argsTyped d a further args params) :
    argsTyped d a further (foldArgs args) params :=
  Expr.argsTyped_fold (fun arg _ => Expr.typed_fold_all.2.2 arg) h

end Pascal
