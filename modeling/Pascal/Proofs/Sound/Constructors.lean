import Pascal.Proofs.Machine.Outcomes
import Pascal.Proofs.Sound.Program

/-!
# The lengths of array constructors

The length of an array constructor is told before the run where the ends of its ranges are constants. The
values that it has then are as many as were counted, whether it is folded or evaluated: converting the ends
to the element type keeps their ordinals. Where an end is not told, no one counts.
-/

namespace Pascal

theorem exists_mem_of_forall₂ {α β : Type} {R : α → β → Prop} {xs : List α} {ys : List β}
    (h : List.Forall₂ R xs ys) {y : β} (hy : y ∈ ys) : ∃ x ∈ xs, R x y := by
  induction h with
  | nil => cases hy
  | cons hxy _ ih =>
    rcases List.mem_cons.mp hy with rfl | hy
    · exact ⟨_, List.mem_cons_self, hxy⟩
    · obtain ⟨x, hx, hxy⟩ := ih hy
      exact ⟨x, List.mem_cons_of_mem _ hx, hxy⟩

/-- The conversion of a type to itself changes no values. -/
theorem Conversion.isRetype_of_self {t : Ty} {c : Conversion} (h : between? t t = some c) :
    c.isRetype := by
  induction t generalizing c with
  | basic b =>
    simp only [between?, ofBasic?, if_true] at h
    cases h
    rfl
  | array element r ih =>
    simp only [between?] at h
    split at h
    · split at h <;> cases h
      · rfl
      · rfl
      · next hinner =>
        have hretype := ih hinner
        exact hretype
    · cases h
  | pointer target =>
    simp only [between?] at h
    split at h <;> cases h
    rfl
  | varargs element ih => exact ih h
  | any | text | nil =>
    cases h
    rfl

/-- Where a conversion gives an ordinal for an ordinal, it is the same one. -/
theorem Conversion.asOrdinal_of_apply {c : Conversion} {v w : Value} {n k : Int} (h : c.apply v = .ok w)
    (hv : v.asOrdinal = .ok n) (hw : w.asOrdinal = .ok k) : k = n := by
  cases c with
  | identity | nilToPointer | toAny =>
    cases h
    exact Except.ok.inj (hw.symm.trans hv)
  | widen source target =>
    cases target with
    | integer =>
      cases v with
      | char c =>
        cases h
        cases hv
        cases hw
        have hcode : c.toNat < 0xD800 ∨ 0xDFFF < c.toNat ∧ c.toNat < 0x110000 := c.valid
        exact Int32.toInt_ofNat_of_lt (by omega)
      | _ =>
        cases h
        exact Except.ok.inj (hw.symm.trans hv)
    | long =>
      simp only [apply, widened, hv] at h
      cases h
      cases hw
      exact Value.toInt_ofInt_of_asOrdinal hv
    | double =>
      obtain ⟨x, rfl⟩ : ∃ x, w = .double x := by
        cases v <;> cases h <;> exact ⟨_, rfl⟩
      cases hw
    | boolean | char | string =>
      cases h
      exact Except.ok.inj (hw.symm.trans hv)
  | charToString =>
    obtain ⟨c, -, h⟩ := bind_eq_ok.mp h
    cases h
    cases hw
  | elements inner =>
    cases v with
    | array => cases hv
    | _ => simp [apply] at h

/-- The items of an array are converted one by one. -/
theorem Conversion.apply_array {c : Conversion} {lower : Int64} {items : List Value} {w : Value}
    (h : c.apply (.array lower items) = .ok w) :
    ∃ vs, w = .array lower vs ∧ vs.length = items.length := by
  cases c with
  | identity | nilToPointer | toAny =>
    cases h
    exact ⟨items, rfl, rfl⟩
  | widen source target =>
    cases target <;> cases h
    all_goals exact ⟨items, rfl, rfl⟩
  | charToString => cases h
  | elements inner =>
    obtain ⟨vs, hvs, h⟩ := bind_eq_ok.mp h
    cases h
    exact ⟨vs, rfl, (mapM_eq_ok.mp hvs).length_eq.symm⟩

/-- Only an array with the same bounds is converted to one with declared bounds. -/
theorem Conversion.between?_array {s element : Ty} {bounds : Subrange} {c : Conversion}
    (h : between? s (.array element bounds) = some c) (hclosed : bounds.isOpen = false) :
    ∃ element' r, s = .array element' r ∧ r.isOpen = false ∧ r.lower = bounds.lower ∧
      r.length = bounds.length := by
  cases s with
  | array element' r =>
    simp only [between?] at h
    split at h
    · next hfits =>
      simp only [Subrange.fits, Subrange.agrees, hclosed, Bool.false_or, Bool.and_eq_true,
        Bool.not_eq_true', Bool.or_eq_true, beq_iff_eq] at hfits
      obtain ⟨hopen, hagrees⟩ := hfits
      obtain ⟨hlower, hsize⟩ := hagrees.resolve_left (by simp [hopen])
      exact ⟨element', r, rfl, hopen, hlower, by rw [Subrange.length, Subrange.length, hsize]⟩
    · cases h
  | _ => cases h

theorem BinaryOp.result?_ne_array {op : BinaryOp} {operand element : Ty} {bounds : Subrange} :
    op.result? operand ≠ some (.array element bounds) := by
  intro h
  cases operand with
  | basic b => cases b <;> cases op <;> cases h
  | _ => cases op <;> simp [result?, Ty.isNumeric, Ty.isIntegral, Ty.isBoolean, Ty.isBasic] at h

namespace Value

variable {v low high : Value} {vs : List Value}

theorem length_of_ordinalsFrom {n : Int} {before : List Value} {count : Nat}
    (h : v.ordinalsFrom n before count = .ok vs) : vs.length = before.length + count := by
  induction count generalizing n before with
  | zero =>
    cases h
    simp
  | succ count ih =>
    obtain ⟨w, -, h⟩ := bind_eq_ok.mp h
    rw [ih h, List.length_cons]
    omega

/-- A range gives as many values as there are ordinals from its first to its last one. -/
theorem length_of_expandRange (h : expandRange low high = .ok vs) : ∃ first last,
    low.asOrdinal = .ok first ∧ high.asOrdinal = .ok last ∧ vs.length = (last - first + 1).toNat := by
  obtain ⟨first, hlow, h⟩ := bind_eq_ok.mp h
  obtain ⟨last, hhigh, h⟩ := bind_eq_ok.mp h
  exact ⟨first, last, hlow, hhigh, by simpa using length_of_ordinalsFrom h⟩

theorem exists_string_of_format {text : Value → String} {width x : Value} {precision : Option Value}
    (h : format text v width precision = .ok x) : ∃ s, x = string s := by
  obtain ⟨columns, -, h⟩ := bind_eq_ok.mp h
  dsimp only at h
  split at h
  · obtain ⟨places, -, h⟩ := bind_eq_ok.mp h
    obtain ⟨digits, -, h⟩ := bind_eq_ok.mp h
    rw [pure_bind] at h
    obtain ⟨n, -, h⟩ := bind_eq_ok.mp h
    cases h
    exact ⟨_, rfl⟩
  · rw [pure_bind] at h
    obtain ⟨n, -, h⟩ := bind_eq_ok.mp h
    cases h
    exact ⟨_, rfl⟩

end Value

namespace Expr

/-- The values that an expression has: those that it is evaluated to, and the one that it is folded to. -/
inductive Has (e : Expr) (v : Value) : Prop where
  | evaluated {env : Env} {caller : Caller} {chain : Chain} {m m' : Machine}
      (h : e.eval env caller chain m = .ok v m')
  | folded (h : e.fold.literal? = some v)

/-- The values that the items of an array constructor have. -/
inductive ItemsHave (items : List Expr) (vs : List Value) : Prop where
  | evaluated {env : Env} {caller : Caller} {chain : Chain} {m m' : Machine}
      (h : evalItems env caller chain items m = .ok vs m')
  | folded (h : itemValues? (foldExprs items) = some vs)

variable {e low high : Expr} {n : Note} {items : List Expr} {v x : Value} {vs : List Value} {k : Int}

theorem Has.array {lower : Int64} (h : (array lower items n).Has v) :
    ∃ vs, v = .array lower vs ∧ ItemsHave items vs := by
  cases h with
  | evaluated h =>
    obtain ⟨vs, m₁, hitems, h⟩ := EStateM.bind_eq_ok_iff.mp h
    cases h
    exact ⟨vs, rfl, .evaluated hitems⟩
  | folded h =>
    rw [fold, literal?_settle] at h
    obtain ⟨vs, hvs, h⟩ := Option.bind_eq_some_iff.mp h
    cases h
    exact ⟨vs, rfl, .folded hvs⟩

namespace ItemsHave

theorem nil (h : ItemsHave [] vs) : vs = [] := by
  cases h with
  | evaluated h | folded h =>
    cases h
    rfl

theorem range (h : ItemsHave (.range low high n :: items) vs) : ∃ first last xs ys, low.Has first ∧
    high.Has last ∧ Value.expandRange first last = .ok xs ∧ ItemsHave items ys ∧ vs = xs ++ ys := by
  cases h with
  | evaluated h =>
    obtain ⟨first, m₁, hlow, h⟩ := EStateM.bind_eq_ok_iff.mp h
    obtain ⟨last, m₂, hhigh, h⟩ := EStateM.bind_eq_ok_iff.mp h
    obtain ⟨xs, m₃, hxs, h⟩ := EStateM.bind_eq_ok_iff.mp h
    obtain ⟨ys, m₄, hys, h⟩ := EStateM.bind_eq_ok_iff.mp h
    cases h
    exact ⟨first, last, xs, ys, .evaluated hlow, .evaluated hhigh, (Run.liftFault_eq_ok_iff.mp hxs).1,
      .evaluated hys, rfl⟩
  | folded h =>
    obtain ⟨first, hlow, h⟩ := Option.bind_eq_some_iff.mp h
    obtain ⟨last, hhigh, h⟩ := Option.bind_eq_some_iff.mp h
    obtain ⟨xs, hxs, h⟩ := Option.bind_eq_some_iff.mp h
    obtain ⟨ys, hys, h⟩ := Option.bind_eq_some_iff.mp h
    cases h
    exact ⟨first, last, xs, ys, .folded hlow, .folded hhigh, eq_ok_of_toOption hxs,
      .folded hys, rfl⟩

theorem item (h : ItemsHave (e :: items) vs) (he : ∀ low high n, e ≠ .range low high n) :
    ∃ x ys, ItemsHave items ys ∧ vs = x :: ys := by
  cases h with
  | evaluated h =>
    rw [evalItems] at h
    · obtain ⟨x, m₁, -, h⟩ := EStateM.bind_eq_ok_iff.mp h
      obtain ⟨ys, m₂, hys, h⟩ := EStateM.bind_eq_ok_iff.mp h
      obtain ⟨m₃, hitems, -⟩ := Run.holding_eq_ok_iff.mp hys
      cases h
      exact ⟨x, ys, .evaluated hitems, rfl⟩
    · exact he
  | folded h =>
    rw [foldExprs, itemValues?] at h
    · obtain ⟨x, -, h⟩ := Option.bind_eq_some_iff.mp h
      obtain ⟨ys, hys, h⟩ := Option.bind_eq_some_iff.mp h
      cases h
      exact ⟨x, ys, .folded hys, rfl⟩
    · exact fold_ne_range he

end ItemsHave

theorem fold_of_literal? (h : e.literal? = some v) : e.fold = e := by
  cases e <;> cases h
  rfl

theorem format_ne_ordinal {width : Expr} {p : Option Expr} (h : (format e width p n).constant? = some x)
    (k : Int) : x.asOrdinal ≠ .ok k := by
  have htext : ∀ {y w : Value} {q : Option Value},
      (Value.format Value.constantText y w q).toOption = some x → x.asOrdinal ≠ .ok k := by
    intro y w q h
    obtain ⟨s, rfl⟩ := Value.exists_string_of_format (eq_ok_of_toOption h)
    simp [Value.asOrdinal]
  obtain ⟨r, hr, h⟩ := Option.bind_eq_some_iff.mp h
  cases p with
  | none =>
    obtain ⟨y, w, -, -, rfl⟩ := formatted?_eq_some.mp hr
    exact htext h
  | some p =>
    obtain ⟨y, w, q, -, -, -, rfl⟩ := formattedReal?_eq_some.mp hr
    exact htext h

theorem constant?_retype (e : Expr) (t : Ty) : (e.retype t).constant? = e.constant? := by
  cases e with
  | format v w p n => cases p <;> rfl
  | _ => rfl

theorem literal?_fold_retype (e : Expr) (t : Ty) : (e.retype t).fold.literal? = e.fold.literal? := by
  cases e with
  | format v w p n =>
    cases p with
    | none | some p =>
      rw [retype, fold, fold, literal?_settle, literal?_settle]
      rfl
  | unary | binary | convert | array =>
    rw [retype, fold, fold, literal?_settle, literal?_settle]
    rfl
  | _ => rfl

/-- A node whose constant value is an ordinal is a literal, or its operands are. -/
theorem fold_eq_settle (h : e.constant? = some x) (hx : x.asOrdinal = .ok k) : e.fold = e.settle := by
  cases e with
  | literal => rfl
  | unary op e n =>
    obtain ⟨y, hy, -⟩ := Option.bind_eq_some_iff.mp h
    rw [fold, fold_of_literal? hy]
  | binary op l r n =>
    obtain ⟨y, hy, h⟩ := Option.bind_eq_some_iff.mp h
    obtain ⟨z, hz, -⟩ := Option.bind_eq_some_iff.mp h
    rw [fold, fold_of_literal? hy, fold_of_literal? hz]
  | convert c e n =>
    obtain ⟨y, hy, -⟩ := Option.bind_eq_some_iff.mp h
    rw [fold, fold_of_literal? hy]
  | format v w p n => exact absurd hx (format_ne_ordinal h k)
  | array lower items n =>
    obtain ⟨vs, -, h⟩ := Option.bind_eq_some_iff.mp h
    cases h
    cases hx
  | range | place | address | call => cases h

/-- `and` and `or` give the same where they look at the second operand only if they have to. -/
theorem eval_lazy_eq {op : BinaryOp} {l r : Expr} {y z w : Value} {env : Env} {caller : Caller}
    {chain : Chain} {m m' : Machine} (hlazy : op.isLazy l.ty) (hy : l.literal? = some y)
    (hz : r.literal? = some z) (hx : Value.binary op y z = .ok x)
    (h : (binary op l r n).eval env caller chain m = .ok w m') : w = x := by
  rw [Expr.eval, eval_of_literal? hy, eval_of_literal? hz, pure_bind, if_pos hlazy] at h
  obtain ⟨b, m₁, hb, h⟩ := EStateM.bind_eq_ok_iff.mp h
  have hop : op = .and ∨ op = .or := by simpa [BinaryOp.isLazy] using (Bool.and_eq_true_iff.mp hlazy).2
  cases y with
  | boolean b' =>
    obtain rfl : b' = b := by simpa [Value.asBool] using (Run.liftFault_eq_ok_iff.mp hb).1
    cases z with
    | boolean c => rcases hop with rfl | rfl <;> cases b' <;> cases hx <;> cases h <;> rfl
    | _ => rcases hop with rfl | rfl <;> cases hx
  | _ => cases (Run.liftFault_eq_ok_iff.mp hb).1

/-- An expression whose constant value is an ordinal has no other value. -/
theorem Has.eq_of_constant? {w : Value} (h : e.Has w) (hx : e.constant? = some x)
    (hk : x.asOrdinal = .ok k) : w = x := by
  cases h with
  | folded h =>
    rw [fold_eq_settle hx hk, literal?_settle, hx] at h
    exact (Option.some.inj h).symm
  | @evaluated env caller chain m m' h =>
    cases e with
    | literal =>
      cases hx
      cases h
      rfl
    | unary op e n =>
      obtain ⟨y, hy, hx⟩ := Option.bind_eq_some_iff.mp hx
      rw [Expr.eval, eval_of_literal? hy, pure_bind, Run.liftFault_of_toOption hx] at h
      cases h
      rfl
    | binary op l r n =>
      obtain ⟨y, hy, hx⟩ := Option.bind_eq_some_iff.mp hx
      obtain ⟨z, hz, hx⟩ := Option.bind_eq_some_iff.mp hx
      by_cases hlazy : op.isLazy l.ty
      · exact eval_lazy_eq hlazy hy hz (eq_ok_of_toOption hx) h
      · rw [Expr.eval, eval_of_literal? hy, eval_of_literal? hz, pure_bind, if_neg hlazy,
          Run.holding_pure, pure_bind, Run.liftFault_of_toOption hx] at h
        cases h
        rfl
    | convert c e n =>
      obtain ⟨y, hy, hx⟩ := Option.bind_eq_some_iff.mp hx
      rw [Expr.eval, eval_of_literal? hy, pure_bind, Run.liftFault_of_toOption hx] at h
      cases h
      rfl
    | format v width p n => exact absurd hk (format_ne_ordinal hx k)
    | array lower items n =>
      obtain ⟨vs, -, hx⟩ := Option.bind_eq_some_iff.mp hx
      cases hx
      cases hk
    | range | place | address | call => cases hx

theorem Has.convert {c : Conversion} {w : Value} (h : (Expr.convert c e n).Has w) :
    ∃ v, e.Has v ∧ c.apply v = .ok w := by
  cases h with
  | evaluated h =>
    obtain ⟨v, m₁, hv, h⟩ := EStateM.bind_eq_ok_iff.mp h
    exact ⟨v, .evaluated hv, (Run.liftFault_eq_ok_iff.mp h).1⟩
  | folded h =>
    rw [fold, literal?_settle] at h
    obtain ⟨v, hv, h⟩ := Option.bind_eq_some_iff.mp h
    exact ⟨v, .folded hv, eq_ok_of_toOption h⟩

/-- An end of a range keeps its ordinal when it is coerced to the element type. -/
theorem Has.asOrdinal_of_coerce {e' : Expr} {t : Ty} {w : Value} {j : Int} (h : e'.Has w)
    (he : e.coerce t = .ok e') (hx : e.constant? = some x) (hk : x.asOrdinal = .ok k)
    (hw : w.asOrdinal = .ok j) : j = k := by
  rcases coerce_eq_ok he with he | ⟨lower, items, n, element, bounds, items', rfl, -⟩
  · obtain ⟨c, -, rfl⟩ := convertTo?_eq_some.mp he
    split at h
    · obtain rfl := h.eq_of_constant? ((constant?_retype e t).trans hx) hk
      exact Except.ok.inj (hw.symm.trans hk)
    · obtain ⟨v, hv, happly⟩ := h.convert
      obtain rfl := hv.eq_of_constant? hx hk
      exact Conversion.asOrdinal_of_apply happly hk hw
  · obtain ⟨vs, -, hx⟩ := Option.bind_eq_some_iff.mp hx
    cases hx
    cases hk

theorem coerce_ne_range {e' : Expr} {t : Ty} (h : e.coerce t = .ok e')
    (he : ∀ low high n, e ≠ .range low high n) (low high : Expr) (n : Note) : e' ≠ .range low high n := by
  have hconvert : ∀ {e : Expr}, (∀ low high n, e ≠ .range low high n) → e.convertTo? t = some e' →
      e' ≠ .range low high n := by
    intro e he h
    obtain ⟨c, -, rfl⟩ := convertTo?_eq_some.mp h
    split
    · cases e with
      | range low' high' n' => exact absurd rfl (he low' high' n')
      | _ => simp [retype]
    · simp
  rcases coerce_eq_ok h with h | ⟨lower, items, n, element, bounds, items', -, rfl, -, -, -, h⟩
  · exact hconvert he h
  · refine hconvert ?_ h
    simp

/-- Whether it is told before the run how many elements an item stands for: it is no range, or one whose
ends are constants and whose size fits into 64 bits. -/
def Counted : Expr → Prop
  | range low high _ => ∃ v w first last, low.constant? = some v ∧ high.constant? = some w ∧
      v.asOrdinal = .ok first ∧ w.asOrdinal = .ok last ∧
        -0x8000000000000000 ≤ last - first + 1 ∧ last - first + 1 < 0x8000000000000000
  | _ => True

/-- `Counted` as it is computed. -/
def isCounted : Expr → Bool
  | range low high _ =>
    match low.constant?.map Value.asOrdinal, high.constant?.map Value.asOrdinal with
    | some (.ok first), some (.ok last) =>
      -0x8000000000000000 ≤ last - first + 1 && last - first + 1 < 0x8000000000000000
    | _, _ => false
  | _ => true

theorem isCounted_iff : e.isCounted ↔ e.Counted := by
  cases e with
  | range low high n =>
    simp only [isCounted, Counted]
    constructor
    · intro h
      split at h
      next first last hlow hhigh =>
        obtain ⟨v, hv, hfirst⟩ := Option.map_eq_some_iff.mp hlow
        obtain ⟨w, hw, hlast⟩ := Option.map_eq_some_iff.mp hhigh
        simp only [Bool.and_eq_true, decide_eq_true_eq] at h
        exact ⟨v, w, first, last, hv, hw, hfirst, hlast, h⟩
      next => cases h
    · rintro ⟨v, w, first, last, hv, hw, hfirst, hlast, h⟩
      simpa [hv, hw, hfirst, hlast] using h
  | _ => simp [isCounted, Counted]

instance : DecidablePred Counted := fun _ => decidable_of_iff _ isCounted_iff

/-- Whether an expression, if it is an array constructor, has counted items only. -/
def hasCountedItems : Expr → Bool
  | array _ items _ => items.all fun item => decide item.Counted
  | _ => true

/-- The values of the items of a constructor are as many as were counted. -/
theorem Fitted.count?_eq {t : Ty} {items' : List Expr}
    (h : Fitted (fun e e' => e.coerce t = .ok e') t items items') (hcounted : ∀ e ∈ items, e.Counted)
    (hvs : ItemsHave items' vs) : count? items = some vs.length := by
  induction h generalizing vs with
  | nil =>
    rw [hvs.nil]
    rfl
  | @range lowEnd highEnd _ _ n _ _ hlow hhigh _ ih =>
    obtain ⟨hrange, hrest⟩ := List.forall_mem_cons.mp hcounted
    obtain ⟨low, high, first, last, hlowConstant, hhighConstant, hfirst, hlast, hleast, hgreatest⟩ := hrange
    obtain ⟨lowest, highest, xs, ys, hlowHas, hhighHas, hxs, hys, rfl⟩ := hvs.range
    obtain ⟨first', last', hfirst', hlast', hlength⟩ := Value.length_of_expandRange hxs
    obtain rfl := hlowHas.asOrdinal_of_coerce hlow hlowConstant hfirst hfirst'
    obtain rfl := hhighHas.asOrdinal_of_coerce hhigh hhighConstant hlast hlast'
    have hexact : (Int64.ofInt (last' - first' + 1)).toInt = last' - first' + 1 :=
      Int64.toInt_ofInt_of_le hleast hgreatest
    have hitem : itemCount? (.range lowEnd highEnd n) = some xs.length := by
      simp only [itemCount?, hlowConstant, hhighConstant, hfirst, hlast, Except.toOption, bind,
        Option.bind, pure, hexact, hlength]
    rw [count?, hitem, ih hrest hys, List.length_append]
    rfl
  | item he hne _ ih =>
    obtain ⟨-, hrest⟩ := List.forall_mem_cons.mp hcounted
    obtain ⟨x, ys, hys, rfl⟩ := hvs.item (coerce_ne_range he hne)
    rw [count?, itemCount?, ih hrest hys]
    · simp [Nat.add_comm]
    · exact hne

/-- A constructor that is accepted where an array with declared bounds is expected begins with the lower
bound, and it has the declared length if its length is told before the run. -/
theorem Has.of_coerce_array {lower : Int64} {element : Ty} {bounds : Subrange} {e' : Expr} {w : Value}
    (h : (Expr.array lower items n).coerce (.array element bounds) = .ok e') (hclosed : bounds.isOpen = false)
    (hw : e'.Has w) :
    ∃ vs, w = .array bounds.lower vs ∧ ((∀ e ∈ items, e.Counted) → vs.length = bounds.length) := by
  unfold coerce at h
  dsimp only at h
  rw [if_neg (by simp [hclosed])] at h
  split at h
  · cases h
  · next hcount =>
    obtain ⟨items', hitems, h⟩ := bind_eq_ok.mp h
    obtain ⟨c, hc, rfl⟩ := convertTo?_eq_some.mp (converted_eq_ok.mp h)
    rw [if_pos (Conversion.isRetype_of_self hc)] at hw
    obtain ⟨vs, rfl, hvs⟩ := hw.array
    refine ⟨vs, rfl, fun hcounted => ?_⟩
    rw [(fitItems_eq_ok hitems).count?_eq hcounted hvs, Option.getD_some, not_not] at hcount
    exact hcount

end Expr

/-! ## Initial values -/

/-- A constant of an array type with declared bounds has these bounds. -/
def Constant.Measured (c : Constant) : Prop :=
  ∀ element r, c.ty = .array element r → r.isOpen = false → c.value.spans r

/-- What is declared with declared bounds has them: constants always, and initial values of variables
where no constructor holds a range. -/
def Entity.Measured (ranges : Bool) : Entity → Prop
  | constant c => c.Measured
  | var x => ranges = false → ∀ element bounds v, x.ty = .array element bounds →
      bounds.isOpen = false → x.initial = some v → v.spans bounds
  | routines _ | type _ => True

structure Arena.Measured (ranges : Bool) (a : Arena) : Prop where
  entities : a.Holds (Entity.Measured ranges)
  libraries : ∀ l ∈ a.libraries, ∀ c ∈ l.constants, c.2.Measured

variable {ranges : Bool} {ctx : Context}

theorem Value.spans_iff {r : Subrange} {v : Value} :
    v.spans r ↔ ∃ vs, v = .array r.lower vs ∧ vs.length = r.length := by
  cases v <;> simp [spans]

namespace Expr.Built

variable {e : Expr} {element : Ty} {v : Value}

/-- What can be read as a constant of an array type with declared bounds is the name of one. -/
theorem literal_of_array (he : e.Built ranges ctx) (ha : ctx.arena.Measured ranges) {r : Subrange}
    (hty : e.ty = .array element r) (hclosed : r.isOpen = false) (hv : e.fold.literal? = some v) :
    v.spans r := by
  cases he with
  | token p h =>
    unfold Token.Kind.literal? at h
    split at h <;> cases h <;> cases hty
  | @constant name c p h =>
    cases hv
    rcases Arena.lookup?_constant h with ⟨s, key, he⟩ | ⟨l, hl, k, hk, rfl⟩
    · exact ha.entities s key _ he element r hty hclosed
    · exact ha.libraries l hl k hk element r hty hclosed
  | «variable» | call => cases hv
  | indexed hbase hindex h =>
    obtain ⟨-, q, -, ⟨_, _, -, rfl⟩ | ⟨-, rfl⟩⟩ := indexed_eq_ok h <;> cases hv
  | dereferenced hpointer h =>
    obtain ⟨_, -, rfl⟩ := dereferenced_eq_ok h
    cases hv
  | address htarget h =>
    obtain ⟨q, n, -, rfl⟩ := addressOf_eq_ok h
    cases hv
  | @unary op operand p e hoperand h =>
    obtain ⟨hop, rfl⟩ := applyUnary_eq_ok h
    rw [show operand.ty = .array element r from hty] at hop
    cases op with
    | not => rcases hop with hop | hop <;> cases hop
    | negate => cases hop
  | binary hleft hright h =>
    obtain ⟨left', right', result, hoperands, rfl⟩ := applyBinary_eq_ok h
    have hresult : result = .array element r := hty
    cases hoperands with
    | shift hop hl hr =>
      rw [hresult] at hl
      cases hl
    | member => cases hresult
    | common h _ _ =>
      rw [hresult] at h
      exact absurd (BinaryOp.result?_of_operandTypes? h) BinaryOp.result?_ne_array
  | array hitems hsingle h =>
    obtain ⟨element', es, -, -, rfl⟩ := SetItem.construct_eq_ok h
    cases hty
    cases hclosed
  | format | formatReal => cases hty

/-- No range is read on its own, and an array constructor is read item by item. -/
theorem constructs (he : e.Built ranges ctx) : (∀ low high n, e ≠ .range low high n) ∧
    ∀ lower items n, e = .array lower items n → ∀ item ∈ items, ∃ (i : SetItem) (element : Ty),
      i.Fits element item ∧ (∀ e ∈ i.ends, e.Built ranges ctx) ∧ (ranges = false → i.isSingle) := by
  cases he with
  | token | constant | «variable» | call | format | formatReal => simp
  | indexed hbase hindex h => obtain ⟨-, q, -, ⟨_, _, -, rfl⟩ | ⟨-, rfl⟩⟩ := indexed_eq_ok h <;> simp
  | dereferenced hpointer h =>
    obtain ⟨_, -, rfl⟩ := dereferenced_eq_ok h
    simp
  | address htarget h =>
    obtain ⟨q, n, -, rfl⟩ := addressOf_eq_ok h
    simp
  | unary hoperand h =>
    obtain ⟨-, rfl⟩ := applyUnary_eq_ok h
    simp
  | binary hleft hright h =>
    obtain ⟨left', right', result, -, rfl⟩ := applyBinary_eq_ok h
    simp
  | array hitems hsingle h =>
    obtain ⟨element, es, -, hes, rfl⟩ := SetItem.construct_eq_ok h
    refine ⟨by simp, ?_⟩
    rintro lower items n ⟨⟩ item hitem
    obtain ⟨i, hi, hfits⟩ := exists_mem_of_forall₂ hes hitem
    exact ⟨i, element, hfits, hitems i hi, fun hr => hsingle hr i hi⟩

/-- Constructors without ranges are counted. -/
theorem counted {lower : Int64} {items : List Expr} {n : Note}
    (he : (Expr.array lower items n).Built false ctx) : ∀ item ∈ items, item.Counted := by
  intro item hitem
  obtain ⟨i, element, hfits, hends, hsingle⟩ := he.constructs.2 lower items n rfl item hitem
  cases hfits with
  | @single e e' h =>
    have hne := coerce_ne_range h (hends e (by simp [SetItem.ends])).constructs.1
    cases item with
    | range low high n => exact absurd rfl (hne low high n)
    | _ => trivial
  | range => cases hsingle rfl

/-- A value that is known before the run and taken for an array with declared bounds begins with the
lower bound. It has the declared length, but where it is written as a constructor that is not counted. -/
theorem array_of_evaluateAs {bounds : Subrange} (he : e.Built ranges ctx)
    (ha : ctx.arena.Measured ranges) (hclosed : bounds.isOpen = false)
    (h : e.evaluateAs (.array element bounds) = .ok v) :
    ∃ vs, v = .array bounds.lower vs ∧
      ((∀ lower items n, e = .array lower items n → ∀ item ∈ items, item.Counted) →
        vs.length = bounds.length) := by
  obtain ⟨e', n, he', hf⟩ := Expr.evaluateAs_eq_ok h
  have hv : e'.fold.literal? = some v := by rw [hf]; rfl
  rcases Expr.coerce_eq_ok he' with hconvert | ⟨lower, items, n, _, _, _, rfl, -⟩
  · obtain ⟨c, hc, rfl⟩ := Expr.convertTo?_eq_some.mp hconvert
    obtain ⟨element', r, hty, hr, hlower, hlength⟩ := Conversion.between?_array hc hclosed
    have hspans : ∀ {w}, e.fold.literal? = some w → w.spans r := he.literal_of_array ha hty hr
    split at hv
    · rw [Expr.literal?_fold_retype] at hv
      obtain ⟨vs, rfl, hvs⟩ := Value.spans_iff.mp (hspans hv)
      exact ⟨vs, by rw [hlower], fun _ => hvs.trans hlength⟩
    · rw [Expr.fold, Expr.literal?_settle] at hv
      obtain ⟨w, hw, hv⟩ := Option.bind_eq_some_iff.mp hv
      obtain ⟨vs, rfl, hvs⟩ := Value.spans_iff.mp (hspans hw)
      obtain ⟨ws, rfl, hws⟩ := Conversion.apply_array (eq_ok_of_toOption hv)
      exact ⟨ws, by rw [hlower], fun _ => hws.trans (hvs.trans hlength)⟩
  · obtain ⟨vs, rfl, hlength⟩ := Expr.Has.of_coerce_array he' hclosed (.folded hv)
    exact ⟨vs, rfl, fun hcounted => hlength (hcounted lower items n rfl)⟩

end Expr.Built

/-- Without ranges a variable is declared with a value of the declared length. -/
theorem Value.Initial.spans {element : Ty} {bounds : Subrange} {v : Value}
    (h : v.Initial false ctx (.array element bounds)) (ha : ctx.arena.Measured false)
    (hclosed : bounds.isOpen = false) : v.spans bounds := by
  cases h with
  | list hitems h => exact Value.spans_iff.mpr ⟨_, rfl, h.resolve_left (by simp [hclosed])⟩
  | evaluated he h =>
    obtain ⟨vs, rfl, hlength⟩ := he.array_of_evaluateAs ha hclosed h
    refine Value.spans_iff.mpr ⟨vs, rfl, hlength ?_⟩
    rintro lower items n rfl
    exact he.counted

/-- What is read at the place of an initial value has the declared length, unless a constructor stands
there that is not counted. -/
theorem Parser.array_of_initializer {element : Ty} {bounds : Subrange} {c c' : Cursor} {v : Value}
    (h : Parser.initializer ctx (.array element bounds) c = .ok (v, c'))
    (ha : ctx.arena.Measured true) (hclosed : bounds.isOpen = false) :
    ∃ vs, v = .array bounds.lower vs ∧
      ((∀ lower items n c₁, Parser.expression ctx c = .ok (.array lower items n, c₁) →
        ∀ item ∈ items, item.Counted) → vs.length = bounds.length) := by
  rw [Parser.initializer] at h
  obtain ⟨g, c₁, hg, hread⟩ := Parser.bind_eq_ok_iff.mp h
  obtain ⟨_, rfl, ⟨rfl, rfl⟩ | ⟨g, rest, rfl, -⟩⟩ := Parser.Meets.group? (P := (· = c)) rfl hg
  · obtain ⟨e, c₂, he, hvalue⟩ := Parser.bind_eq_ok_iff.mp hread
    have hbuilt := (Parser.Yields.expression (Cursor.guard_fair true) (Cursor.fair_true _) he).1
    obtain ⟨vs, rfl, hlength⟩ := hbuilt.array_of_evaluateAs ha hclosed (Parser.check_eq_ok.mp hvalue).1
    refine ⟨vs, rfl, fun hcounted => hlength ?_⟩
    rintro lower items n rfl
    exact hcounted lower items n c₂ he
  · obtain ⟨items, c₂, -, hvalue⟩ := Parser.bind_eq_ok_iff.mp hread
    dsimp only at hvalue
    split at hvalue
    · cases hvalue
    · next hlength =>
      cases hvalue
      exact ⟨items, rfl, fun _ => by simpa [hclosed] using hlength⟩

namespace Arena

variable {a a' : Arena} {libraries : List Library}

theorem Measured.empty : Measured ranges {} where
  entities s key e h := by simp [Arena.scope, default, Scope.entity?, Scope.find?] at h
  libraries _ h := by simp at h

theorem Declares.measured (h : Declares ranges a a') (ha : a.Measured ranges) (hn : a.Nested) :
    a'.Measured ranges := by
  cases h with
  | @vars scope names ty initial _ hscope hty hinitial h =>
    rw [declareVariables_eq] at h
    have he := declareEach_eq_ok hscope h
    refine ⟨he.holds _ ha.entities fun v hv => ?_, he.knows.libraries ▸ ha.libraries⟩
    obtain ⟨⟨name, p⟩, -, rfl⟩ := List.mem_map.mp hv
    rintro rfl element bounds x rfl hclosed hx
    exact (hinitial x hx).spans ha hclosed
  | @constant scope e c _ hscope he hvalue h =>
    refine ⟨ha.entities.declare hscope h fun element r hty hclosed => ?_,
      (Knows.declare h).libraries ▸ ha.libraries⟩
    obtain ⟨n, hf, hn⟩ := Expr.evaluate_eq_ok hvalue
    have hwhole : e.ty = .array element r := by
      rw [← Expr.ty_fold, hf]
      exact hn.trans hty
    exact he.literal_of_array ha hwhole hclosed (by rw [hf]; rfl)
  | type hscope hty h =>
    exact ⟨ha.entities.declare hscope h trivial, (Knows.declare h).libraries ▸ ha.libraries⟩
  | header hscope hparams hresult h h' =>
    have hd := declaresHeader hn hscope h h'
    refine ⟨hd.holds _ (fun _ => trivial) (fun v hv => ?_) ha.entities, hd.knows.libraries ▸ ha.libraries⟩
    rintro - element bounds x - - hx
    rcases List.mem_append.mp hv with hv | hv
    · obtain ⟨q, -, rfl⟩ := List.mem_map.mp hv
      cases hx
    · obtain ⟨ty, -, rfl⟩ := List.mem_map.mp hv
      cases hx
  | body hid hbody => exact ⟨ha.entities, ha.libraries⟩

theorem Extends.measured (h : Extends ranges libraries a a') (ha : a.Measured ranges) (hn : a.Nested)
    (hl : ∀ l ∈ libraries, l.Fits { bounds := true }) : a'.Measured ranges := by
  cases h with
  | scope =>
    refine ⟨fun s key e he => ?_, ha.libraries⟩
    rw [scope_push] at he
    split at he
    · simp [Scope.entity?, Scope.find?] at he
    · exact ha.entities s key e he
  | library l hmem =>
    refine ⟨fun s key e he => ?_, fun known hk => ?_⟩
    · rw [scope_withLibrary] at he
      exact ha.entities s key e he
    · obtain ⟨new, hlibs, -, -, hconstants, -⟩ := (addsLibrary (a := a) l).libraries
      rw [hlibs] at hk
      rcases Array.mem_push.mp hk with hk | rfl
      · exact ha.libraries known hk
      · intro c hc element r hty hclosed
        have htype := ((hl l hmem).constants _ _ _ (hconstants c hc)).type
        rw [hty, Ty.outline_true] at htype
        obtain ⟨lower, items, hvalue, hadmits, -⟩ := htype
        obtain ⟨rfl, hlength⟩ := hadmits hclosed
        exact Value.spans_iff.mpr ⟨items, hvalue, hlength⟩
  | importLibrary | importUnit =>
    exact ⟨fun s key e he => ha.entities s key e (by rwa [entity?_addImport] at he), ha.libraries⟩
  | declares h => exact h.measured ha hn

theorem Leads.measured (h : Arena.Leads ranges libraries {} a)
    (hl : ∀ l ∈ libraries, l.Fits { bounds := true }) : a.Measured ranges := by
  induction h with
  | refl => exact .empty
  | tail h₁ h ih => exact h.measured ih (Leads.nested h₁ .empty) hl

end Arena

/-- Whether a program declares a variable of a type with an initial value with a property. -/
def Program.declares (p : Program) (key : String) (t : Ty) (P : Value → Bool) : Bool :=
  match (p.arena.scope p.main).entity? key with
  | some (.var x) => x.ty == t && x.initial.any P
  | _ => false

theorem Program.exists_of_declares {p : Program} {key : String} {t : Ty} {P : Value → Bool}
    (h : p.declares key t P) : ∃ x v, (p.arena.scope p.main).entity? key = some (.var x) ∧ x.ty = t ∧
      x.initial = some v ∧ P v := by
  unfold declares at h
  split at h
  · next x hx =>
    obtain ⟨ht, hv⟩ := Bool.and_eq_true_iff.mp h
    cases hinitial : x.initial with
    | none => simp [hinitial] at hv
    | some v => exact ⟨x, v, hx, eq_of_beq ht, hinitial, by simpa [hinitial] using hv⟩
  · cases h

namespace Toolchain

variable {t : Toolchain} {unit source : String} {p : Program}

/-- Counted constructors have their declared length. An array constructor that is accepted where an array
with declared bounds is expected begins with the lower bound, wherever it is evaluated or folded, and it is
as long as is declared if its length is told before the run. This is where the ends of its ranges are
literals or operators on literals, and 64 bits hold their sizes. What is read as an initial value is as long
as is declared, unless a constructor stands there that is not counted; and where no constructor of the
program and its units holds a range, all variables are declared with values of their length. -/
theorem compile_lengths (h : t.compile unit source = .ok p)
    (hl : ∀ l ∈ t.libraries, l.Fits { bounds := true }) :
    (∀ (lower : Int64) (items : List Expr) (n : Note) (element : Ty) (bounds : Subrange) (e : Expr)
      (v : Value), bounds.isOpen = false →
      (Expr.array lower items n).coerce (.array element bounds) = .ok e → e.Has v →
      ∃ vs, v = .array bounds.lower vs ∧
        ((∀ item ∈ items, item.Counted) → vs.length = bounds.length)) ∧
    (∀ (ctx : Context) (element : Ty) (bounds : Subrange) (c c' : Cursor) (v : Value),
      Arena.Leads true t.libraries {} ctx.arena → bounds.isOpen = false →
      Parser.initializer ctx (.array element bounds) c = .ok (v, c') →
      ∃ vs, v = .array bounds.lower vs ∧
        ((∀ lower items n c₁, Parser.expression ctx c = .ok (.array lower items n, c₁) →
          ∀ item ∈ items, item.Counted) → vs.length = bounds.length)) ∧
    (t.IsRangeFree unit source → (∀ u ∈ p.units, t.UnitIsRangeFree u.name) →
      ∀ s key x element bounds v, (p.arena.scope s).entity? key = some (.var x) →
        x.ty = .array element bounds → bounds.isOpen = false → x.initial = some v →
        v.spans bounds) := by
  refine ⟨fun lower items n element bounds e v hclosed he hv => hv.of_coerce_array he hclosed,
    fun ctx element bounds c c' v ha hclosed hv => ?_, fun hfree hunits => ?_⟩
  · exact Parser.array_of_initializer hv (ha.measured hl) hclosed
  intro s key x element bounds v hx hty hclosed hv
  obtain ⟨q, -, rfl, hbuild⟩ := compile_elaborated h fun (_ : false = false) => ⟨hfree, hunits⟩
  have hscope : (if t.folds then q.fold else q).arena.scope s = q.arena.scope s := by
    split
    · exact q.alike_fold.scope s
    · rfl
  rw [hscope] at hx
  exact (hbuild.arena.measured hl).entities s key _ hx rfl element bounds v hty hclosed hv

/-- The constructor of a range whose last ordinal is calculated. -/
def calculated : Expr :=
  let integer (n : Int32) : Expr := .literal (.integer n) ⟨.integer, default⟩
  .array 0 [.range (integer 1) (.binary .add (integer 2) (integer 1) ⟨.integer, default⟩)
    ⟨.integer, default⟩] ⟨.openArray .integer, default⟩

/-- The hypotheses hold of a program without ranges, of a constructor with a counted one, and of an initial
value that is read. -/
theorem compile_lengths_counted : ∃ (p : Program) (x : Variable) (v : Value) (e : Expr) (w : Value)
      (vs : List Value) (ctx : Context) (c c' : Cursor) (us : List Value),
    standard.compile "test" "var a: array[1..3] of int64 = [1, 2, 3]; begin end." = .ok p ∧
    (p.arena.scope p.main).entity? "a" = some (.var x) ∧ x.ty = .array .long { lower := 1, size := 3 } ∧
    x.initial = some v ∧ v.spans { lower := 1, size := 3 } ∧
    calculated.coerce (.array .long { lower := 1, size := 3 }) = .ok e ∧ e.Has w ∧
    w = .array 1 vs ∧ vs.length = 3 ∧
    Parser.initializer ctx (.array .integer { lower := 1, size := 3 }) c = .ok (.array 1 us, c') ∧
    us.length = 3 := by
  let text := "var a: array[1..3] of int64 = [1, 2, 3]; begin end."
  have hdeclares : (standard.compile "test" text).toOption.any fun p => p.units.isEmpty &&
      p.declares "a" (.array .long { lower := 1, size := 3 }) fun _ => true := by decide +kernel
  obtain ⟨p, hp, hdeclares⟩ := exists_ok_of_any hdeclares
  obtain ⟨hunits, hdeclares⟩ := Bool.and_eq_true_iff.mp hdeclares
  obtain ⟨x, v, hx, hty, hv, -⟩ := Program.exists_of_declares hdeclares
  obtain ⟨hconstructs, hinitializer, hinitial⟩ :=
    compile_lengths hp fun l hmem => Library.standard_fits l hmem
  have hspans := hinitial (by decide +kernel) (by simp [List.isEmpty_iff.mp hunits])
    _ _ x _ _ v hx hty rfl hv
  have hfolds : (calculated.coerce (.array .long { lower := 1, size := 3 })).toOption.any fun e =>
      e.fold.literal?.isSome := by decide +kernel
  obtain ⟨e, he, hfolds⟩ := exists_ok_of_any hfolds
  obtain ⟨w, hw⟩ := Option.isSome_iff_exists.mp hfolds
  obtain ⟨vs, hvs, hlength⟩ := hconstructs _ _ _ _ _ e w rfl he (.folded hw)
  let ctx : Context := { arena := {}, scope := 0 }
  let c : Cursor := .ofGroup (Group.assemble ⟨{}, []⟩ "test" "[1..2+1]")
  have hreads : (Parser.initializer ctx (.array .integer { lower := 1, size := 3 }) c).toOption.any
      fun _ => true := by decide +kernel
  have hitems : (Parser.expression ctx c).toOption.all fun r => r.1.hasCountedItems := by
    decide +kernel
  obtain ⟨⟨u, c'⟩, hread, -⟩ := exists_ok_of_any hreads
  obtain ⟨us, rfl, hcounted⟩ := hinitializer ctx _ _ c c' u .refl rfl hread
  refine ⟨p, x, v, e, w, vs, ctx, c, c', us, hp, hx, hty, hv, hspans, he, .folded hw, hvs,
    hlength (by decide), hread, hcounted fun lower items n c₁ hexpression => ?_⟩
  rw [hexpression] at hitems
  simpa [Except.toOption, Expr.hasCountedItems] using hitems

/-- A range that begins with a sum of three literals is not counted. Its array is accepted as one of three
elements and has eight. -/
theorem compile_lengths_uncounted : ∃ (p : Program) (x : Variable) (v : Value),
    standard.compile "test"
      "var a: array[1..3] of integer = [1+1+1..10];\nbegin\n  write(length(a))\nend.\n" = .ok p ∧
    (p.arena.scope p.main).entity? "a" = some (.var x) ∧
    x.ty = .array .integer { lower := 1, size := 3 } ∧ x.initial = some v ∧
    v.spans { lower := 1, size := 3 } = false ∧ v.spans { lower := 1, size := 8 } := by
  let text := "var a: array[1..3] of integer = [1+1+1..10];\nbegin\n  write(length(a))\nend.\n"
  have hdeclares : (standard.compile "test" text).toOption.any
      (·.declares "a" (.array .integer { lower := 1, size := 3 }) fun v =>
        !v.spans { lower := 1, size := 3 } && v.spans { lower := 1, size := 8 }) := by
    decide +kernel
  obtain ⟨p, hp, hdeclares⟩ := exists_ok_of_any hdeclares
  obtain ⟨x, v, hx, hty, hv, hspans⟩ := Program.exists_of_declares hdeclares
  obtain ⟨hother, hspans⟩ := Bool.and_eq_true_iff.mp hspans
  exact ⟨p, x, v, hp, hx, hty, hv, by simpa using hother, hspans⟩

end Toolchain

end Pascal
