import Pascal.Machine.Exec
import Pascal.Proofs.Machine.Outcomes
import Pascal.Proofs.Value.Widening

/-!
# Sets, labels and comparisons

A range of ordinals is met in three ways: as an item of an array constructor it is spelled out and
searched, as a label of a `case` statement its ends are compared as numbers, and its ends can be compared
as values of their type. All three tell the same values, for one range and for any list of values and
ranges.
-/

namespace Pascal

/-- The numbers from one on, so many of them. -/
def numbersFrom (n : Int) : Nat → List Int
  | 0 => []
  | count + 1 => n :: numbersFrom (n + 1) count

theorem length_numbersFrom (n : Int) (count : Nat) : (numbersFrom n count).length = count := by
  induction count generalizing n with
  | zero => rfl
  | succ count ih => rw [numbersFrom, List.length_cons, ih]

theorem mem_numbersFrom {k n : Int} {count : Nat} :
    k ∈ numbersFrom n count ↔ n ≤ k ∧ k < n + count := by
  induction count generalizing n with
  | zero =>
    simp only [numbersFrom, List.not_mem_nil, false_iff]
    omega
  | succ count ih =>
    rw [numbersFrom, List.mem_cons, ih]
    omega

theorem numbersFrom_increasing (n : Int) (count : Nat) : (numbersFrom n count).Pairwise (· < ·) := by
  induction count generalizing n with
  | zero => exact .nil
  | succ count ih =>
    refine .cons (fun k hk => ?_) (ih (n + 1))
    have hle := (mem_numbersFrom.mp hk).1
    omega

/-- The numbers from the first to the last one. -/
theorem mem_numbersFrom_to {k l h : Int} : k ∈ numbersFrom l (h - l + 1).toNat ↔ l ≤ k ∧ k ≤ h := by
  rw [mem_numbersFrom]
  omega

namespace Value

variable {b : Basic} {h k l m n : Int} {count : Nat} {f : Fault} {v w low high left right : Value}
  {before items : List Value} {numbers : List Int}

theorem Numbered.isOrdinal (hv : v.Numbered b n) : (Ty.basic b).isOrdinal := by
  obtain ⟨hkind, hnumber⟩ := hv
  cases v <;> cases hkind <;> first | rfl | cases hnumber

/-! ## Ranges -/

theorem withOrdinal_eq_ok (hv : v.basic? = some b) (hb : (Ty.basic b).isOrdinal) :
    v.withOrdinal n = .ok w ↔ w.Numbered b n := by
  rw [withOrdinal_eq hv hb]
  by_cases hn : b.Holds n
  · obtain ⟨x, hx, hxnum⟩ := value?_of_holds hn
    rw [hx, orOverflow]
    exact ⟨fun hw => Except.ok.inj hw ▸ hxnum, fun hw => congrArg Except.ok (hxnum.unique hw)⟩
  · rw [value?_eq_none hn, orOverflow]
    exact ⟨fun hw => (by cases hw), fun hw => absurd hw.holds hn⟩

theorem withOrdinal_eq_error (hv : v.basic? = some b) (hb : (Ty.basic b).isOrdinal) :
    v.withOrdinal n = .error f ↔ ¬ b.Holds n ∧ f = .overflow "ordinal" := by
  rw [withOrdinal_eq hv hb]
  by_cases hn : b.Holds n
  · obtain ⟨x, hx, -⟩ := value?_of_holds hn
    rw [hx, orOverflow]
    exact ⟨fun hw => (by cases hw), fun hw => absurd hn hw.1⟩
  · rw [value?_eq_none hn, orOverflow]
    exact ⟨fun hw => ⟨hn, (Except.error.inj hw).symm⟩, fun hw => congrArg Except.error hw.2.symm⟩

/-- The ordinals from a number on are values with consecutive numbers. -/
theorem ordinalsFrom_eq_ok (hv : v.basic? = some b) (hb : (Ty.basic b).isOrdinal) :
    v.ordinalsFrom n before count = .ok items ↔ ∃ ws, items = before.reverse ++ ws ∧
      List.Forall₂ (fun k w => w.Numbered b k) (numbersFrom n count) ws := by
  induction count generalizing n before with
  | zero =>
    simp only [ordinalsFrom, numbersFrom, List.forall₂_nil_left_iff, Except.ok.injEq]
    exact ⟨fun he => ⟨[], by simp [he], rfl⟩, fun ⟨ws, he, hws⟩ => by simp [he, hws]⟩
  | succ count ih =>
    simp only [ordinalsFrom, numbersFrom, bind_eq_ok, withOrdinal_eq_ok hv hb, ih,
      List.forall₂_cons_left_iff]
    constructor
    · rintro ⟨w, hw, ws, rfl, hws⟩
      exact ⟨w :: ws, by simp, w, ws, hw, hws, rfl⟩
    · rintro ⟨_, rfl, w, ws, hw, hws, rfl⟩
      exact ⟨w, hw, ws, by simp, hws⟩

theorem ordinalsFrom_eq_error (hv : v.basic? = some b) (hb : (Ty.basic b).isOrdinal) :
    v.ordinalsFrom n before count = .error f ↔
      (∃ k ∈ numbersFrom n count, ¬ b.Holds k) ∧ f = .overflow "ordinal" := by
  induction count generalizing n before with
  | zero => simp [ordinalsFrom, numbersFrom]
  | succ count ih =>
    rw [ordinalsFrom, numbersFrom, List.exists_mem_cons_iff]
    cases hw : v.withOrdinal n with
    | ok w =>
      have hholds := ((withOrdinal_eq_ok hv hb).mp hw).holds
      simp only [Bind.bind, Except.bind, ih, hholds, not_true, false_or]
    | error e =>
      obtain ⟨hn, rfl⟩ := (withOrdinal_eq_error hv hb).mp hw
      simp only [Bind.bind, Except.bind, hn, not_false_eq_true, true_or, true_and, Except.error.injEq]
      exact eq_comm

theorem expandRange_eq (hl : low.Numbered b l) (hh : high.Numbered b h) :
    expandRange low high = low.ordinalsFrom l [] (h - l + 1).toNat := by
  rw [expandRange, hl.number, hh.number]
  rfl

/-- A range is expanded to the values with the numbers from its first to its last one. -/
theorem expandRange_eq_ok_iff (hl : low.Numbered b l) (hh : high.Numbered b h) :
    expandRange low high = .ok items ↔
      List.Forall₂ (fun k w => w.Numbered b k) (numbersFrom l (h - l + 1).toNat) items := by
  rw [expandRange_eq hl hh, ordinalsFrom_eq_ok hl.kind hl.isOrdinal]
  simp

/-- Between two numbers that a type has it lacks only those of surrogates. -/
theorem not_holds_between (hl : b.Holds l) (hh : b.Holds h) (hlk : l ≤ k) (hkh : k ≤ h) :
    ¬ b.Holds k ↔ b = .char ∧ 0xD800 ≤ k ∧ k ≤ 0xDFFF := by
  cases b <;> simp only [Basic.Holds, reduceCtorEq, false_and, true_and, iff_false] at hl hh ⊢ <;> omega

/-- A range cannot be expanded just where it is one of characters that contains a surrogate. -/
theorem expandRange_eq_error_iff (hl : low.Numbered b l) (hh : high.Numbered b h) :
    expandRange low high = .error f ↔
      (b = .char ∧ ∃ code, 0xD800 ≤ code ∧ code ≤ 0xDFFF ∧ l ≤ code ∧ code ≤ h) ∧
        f = .overflow "ordinal" := by
  rw [expandRange_eq hl hh, ordinalsFrom_eq_error hl.kind hl.isOrdinal]
  refine and_congr_left fun _ => ?_
  constructor
  · rintro ⟨k, hk, hlacks⟩
    obtain ⟨hlk, hkh⟩ := mem_numbersFrom_to.mp hk
    obtain ⟨hchar, hfrom, hto⟩ := (not_holds_between hl.holds hh.holds hlk hkh).mp hlacks
    exact ⟨hchar, k, hfrom, hto, hlk, hkh⟩
  · rintro ⟨hchar, k, hfrom, hto, hlk, hkh⟩
    exact ⟨k, mem_numbersFrom_to.mpr ⟨hlk, hkh⟩,
      (not_holds_between hl.holds hh.holds hlk hkh).mpr ⟨hchar, hfrom, hto⟩⟩

/-! ## Comparisons -/

theorem equal_of_numbered (hl : left.Numbered b m) (hr : right.Numbered b n) :
    binary .equal left right = .ok (boolean (decide (m = n))) := by
  rw [binary, equals_of_numbered hl hr]

theorem less_of_numbered (hl : left.Numbered b m) (hr : right.Numbered b n) :
    binary .less left right = .ok (boolean (decide (m < n))) := by
  simp only [binary, compare_of_numbered hl hr, order, Bind.bind, Except.bind, pure, Except.pure]
  split
  · next hlt => simp [hlt]
  · next hlt => split <;> simp [hlt]

theorem lessEqual_of_numbered (hl : left.Numbered b m) (hr : right.Numbered b n) :
    binary .lessEqual left right = .ok (boolean (decide (m ≤ n))) := by
  simp only [binary, compare_of_numbered hl hr, order, Bind.bind, Except.bind, pure, Except.pure]
  split
  · next hlt => simp [Int.le_of_lt hlt]
  · next hlt =>
    split
    · next hgt => simp [hgt]
    · next hgt => simp [Int.not_lt.mp hgt]

/-! ## Items -/

theorem exists_number (hitems : List.Forall₂ (fun k w => w.Numbered b k) numbers items) (hw : w ∈ items) :
    ∃ k ∈ numbers, w.Numbered b k := by
  induction hitems with
  | nil => cases hw
  | cons hx _ ih =>
    rcases List.mem_cons.mp hw with rfl | hw
    · exact ⟨_, List.mem_cons_self, hx⟩
    · obtain ⟨k, hk, hnum⟩ := ih hw
      exact ⟨k, List.mem_cons_of_mem _ hk, hnum⟩

/-- A value is found among others just where its number is among theirs. -/
theorem any_equals (hv : v.Numbered b n)
    (hitems : List.Forall₂ (fun k w => w.Numbered b k) numbers items) :
    items.any v.equals = decide (n ∈ numbers) := by
  induction hitems with
  | nil => simp
  | cons hw _ ih =>
    rw [List.any_cons, ih, equals_of_numbered hv hw, ← Bool.decide_or]
    exact decide_eq_decide.mpr List.mem_cons.symm

/-- Some values are those of type `b` with the numbers from `l` to `h`, in increasing order. -/
structure Ascend (b : Basic) (l h : Int) (items : List Value) : Prop where
  count : (items.length : Int) = max 0 (h - l + 1)
  within : ∀ w ∈ items, ∃ k, w.Numbered b k ∧ l ≤ k ∧ k ≤ h
  increasing : items.Pairwise fun x y =>
    binary .less x y = .ok (boolean true) ∧ binary .equal x y = .ok (boolean false)

theorem increasing_of_numbers (hitems : List.Forall₂ (fun k w => w.Numbered b k) numbers items)
    (hnumbers : numbers.Pairwise (· < ·)) : items.Pairwise fun x y =>
      binary .less x y = .ok (boolean true) ∧ binary .equal x y = .ok (boolean false) := by
  induction hitems with
  | nil => exact .nil
  | cons hx hitems ih =>
    obtain ⟨hfirst, hrest⟩ := List.pairwise_cons.mp hnumbers
    refine .cons (fun y hy => ?_) (ih hrest)
    obtain ⟨k, hk, hnum⟩ := exists_number hitems hy
    have hlt := hfirst k hk
    rw [less_of_numbered hx hnum, equal_of_numbered hx hnum]
    exact ⟨by simp [hlt], by simp [Int.ne_of_lt hlt]⟩

theorem ascend_of_expandRange (hl : low.Numbered b l) (hh : high.Numbered b h)
    (hitems : expandRange low high = .ok items) : Ascend b l h items where
  count := by
    rw [← ((expandRange_eq_ok_iff hl hh).mp hitems).length_eq, length_numbersFrom]
    omega
  within w hw := by
    obtain ⟨k, hk, hnum⟩ := exists_number ((expandRange_eq_ok_iff hl hh).mp hitems) hw
    exact ⟨k, hnum, mem_numbersFrom_to.mp hk⟩
  increasing := increasing_of_numbers ((expandRange_eq_ok_iff hl hh).mp hitems) (numbersFrom_increasing _ _)

end Value

/-! ## Labels -/

namespace Label

open Value

variable {b : Basic} {n : Int} {v : Value} {f : Fault} {items : List Value} {label : Label}
  {labels : List Label}

/-- A label consists of ordinals of a type. -/
def IsOf (b : Basic) : Label → Prop
  | .value x => ∃ k, x.Numbered b k
  | .range low high => (∃ l, low.Numbered b l) ∧ ∃ h, high.Numbered b h

/-- A value compares as one that a label stands for: as equal, or as lying between the ends. -/
def Fits (v : Value) : Label → Prop
  | .value x => binary .equal v x = .ok (boolean true)
  | .range low high => binary .lessEqual low v = .ok (boolean true) ∧
      binary .lessEqual v high = .ok (boolean true)

/-- A label is a range of characters that contains a surrogate. -/
def Broken (b : Basic) : Label → Prop
  | .value _ => False
  | .range low high => b = .char ∧ ∃ l h code, low.Numbered b l ∧ high.Numbered b h ∧
      0xD800 ≤ code ∧ code ≤ 0xDFFF ∧ l ≤ code ∧ code ≤ h

/-- The values that a label stands for. -/
def values : Label → Except Fault (List Value)
  | .value x => .ok [x]
  | .range low high => expandRange low high

/-- The values that some labels stand for, one label after the other. -/
def expandAll : List Label → Except Fault (List Value)
  | [] => .ok []
  | label :: labels => do return (← label.values) ++ (← expandAll labels)

theorem expandAll_cons {vs : List Value} : expandAll (label :: labels) = .ok vs ↔
    ∃ xs ys, label.values = .ok xs ∧ expandAll labels = .ok ys ∧ vs = xs ++ ys := by
  simp only [expandAll, bind_eq_ok]
  constructor
  · rintro ⟨xs, hxs, ys, hys, ⟨⟩⟩
    exact ⟨xs, ys, hxs, hys, rfl⟩
  · rintro ⟨xs, ys, hxs, hys, rfl⟩
    exact ⟨xs, hxs, ys, hys, rfl⟩

/-- Searched, compared by its number or compared as a value, a label tells the same values. -/
theorem names_of_values (hv : v.Numbered b n) (hlabel : label.IsOf b) :
    (label.names n = true ↔ label.Fits v) ∧
      ∀ items, label.values = .ok items → items.any v.equals = label.names n := by
  cases label with
  | value x =>
    obtain ⟨k, hx⟩ := hlabel
    have hnames : (Label.value x).names n = decide (n = k) := by
      rw [names, hx.number, Bool.eq_iff_iff, beq_iff_eq, decide_eq_true_iff, eq_comm]
    rw [hnames, Fits, equal_of_numbered hv hx]
    refine ⟨by simp, ?_⟩
    rintro items ⟨⟩
    rw [List.any_cons, List.any_nil, Bool.or_false, equals_of_numbered hv hx]
  | range low high =>
    obtain ⟨⟨l, hl⟩, h, hh⟩ := hlabel
    have hnames : (Label.range low high).names n = decide (l ≤ n ∧ n ≤ h) := by
      rw [names, hl.number, hh.number, Bool.decide_and]
    rw [hnames, Fits, lessEqual_of_numbered hl hv, lessEqual_of_numbered hv hh]
    refine ⟨by simp, fun items hitems => ?_⟩
    rw [any_equals hv ((expandRange_eq_ok_iff hl hh).mp hitems)]
    exact decide_eq_decide.mpr mem_numbersFrom_to

theorem values_eq_error (hlabel : label.IsOf b) :
    label.values = .error f ↔ label.Broken b ∧ f = .overflow "ordinal" := by
  cases label with
  | value x => simp [values, Broken]
  | range low high =>
    obtain ⟨⟨l, hl⟩, h, hh⟩ := hlabel
    rw [values, expandRange_eq_error_iff hl hh]
    refine and_congr_left fun _ => and_congr_right fun _ => ?_
    constructor
    · rintro ⟨code, hcode⟩
      exact ⟨l, h, code, hl, hh, hcode⟩
    · rintro ⟨l', h', code, hl', hh', hcode⟩
      cases hl.number.symm.trans hl'.number
      cases hh.number.symm.trans hh'.number
      exact ⟨code, hcode⟩

/-- Where labels can be expanded, a value is among their values just where one of them names its number. -/
theorem any_of_expandAll (hv : v.Numbered b n) (hlabels : ∀ label ∈ labels, label.IsOf b)
    (hitems : expandAll labels = .ok items) : items.any v.equals = labels.any (·.names n) := by
  induction labels generalizing items with
  | nil =>
    cases hitems
    rfl
  | cons label labels ih =>
    obtain ⟨hlabel, hlabels⟩ := List.forall_mem_cons.mp hlabels
    obtain ⟨xs, ys, hxs, hys, rfl⟩ := expandAll_cons.mp hitems
    rw [List.any_append, List.any_cons, (names_of_values hv hlabel).2 xs hxs, ih hlabels hys]

/-- Labels cannot be expanded just where one of them is a range of characters with a surrogate. -/
theorem expandAll_eq_error (hlabels : ∀ label ∈ labels, label.IsOf b) :
    expandAll labels = .error f ↔ (∃ label ∈ labels, label.Broken b) ∧ f = .overflow "ordinal" := by
  induction labels with
  | nil => simp [expandAll]
  | cons label labels ih =>
    obtain ⟨hlabel, hlabels⟩ := List.forall_mem_cons.mp hlabels
    rw [List.exists_mem_cons_iff, expandAll]
    cases hxs : label.values with
    | error e =>
      obtain ⟨hbroken, rfl⟩ := (values_eq_error hlabel).mp hxs
      simp only [Bind.bind, Except.bind, hbroken, true_or, true_and, Except.error.injEq]
      exact eq_comm
    | ok xs =>
      have hsound : ¬ label.Broken b := fun hbroken => by
        rw [(values_eq_error hlabel).mpr ⟨hbroken, rfl⟩] at hxs
        cases hxs
      simp only [hsound, false_or, ← ih hlabels]
      cases expandAll labels <;> simp [Bind.bind, Except.bind, pure, Except.pure]

/-- A value is a member of the values of some labels just where one of the labels names its number, and just
where it fits one of them. -/
theorem member_of_expandAll (hv : v.Numbered b n) (hlabels : ∀ label ∈ labels, label.IsOf b)
    (hitems : expandAll labels = .ok items) (lower : Int64) :
    ∃ r, binary .member v (array lower items) = .ok (boolean r) ∧
      (r = true ↔ ∃ label ∈ labels, label.Fits v) ∧ labels.any (·.names n) = r := by
  refine ⟨labels.any (·.names n), ?_, ?_, rfl⟩
  · rw [binary, any_of_expandAll hv hlabels hitems]
  · rw [List.any_eq_true]
    exact exists_congr fun label => and_congr_right fun hmem => (names_of_values hv (hlabels _ hmem)).1

end Label

/-! ## Constructors -/

variable {env : Env} {caller : Caller} {chain : Chain} {m m' : Machine}

/-- The values of the items of an array constructor, where ranges stay ranges. -/
def evalLabels (env : Env) (caller : Caller) (chain : Chain) : List Expr → Run (List Label)
  | [] => return []
  | .range low high _ :: items => do
    let first ← low.eval env caller chain
    let last ← high.eval env caller chain
    return .range first last :: (← evalLabels env caller chain items)
  | item :: items => do
    let v ← item.eval env caller chain
    return .value v :: (← Run.holding [v] (evalLabels env caller chain items))

/-- A constructor has the values of its items one after the other, each range expanded. -/
theorem evalItems_eq_ok {items : List Expr} {vs : List Value} :
    evalItems env caller chain items m = .ok vs m' ↔
      ∃ labels, evalLabels env caller chain items m = .ok labels m' ∧ Label.expandAll labels = .ok vs := by
  fun_induction evalLabels env caller chain items generalizing m m' vs with
  | case1 =>
    rw [evalItems]
    simp only [EStateM.pure_eq_ok_iff]
    constructor
    · rintro ⟨rfl, rfl⟩
      exact ⟨[], ⟨rfl, rfl⟩, rfl⟩
    · rintro ⟨_, ⟨rfl, rfl⟩, ⟨⟩⟩
      exact ⟨rfl, rfl⟩
  | case2 low high note items ih =>
    rw [evalItems]
    simp only [EStateM.bind_eq_ok_iff, Run.liftFault_eq_ok_iff, EStateM.pure_eq_ok_iff, ih]
    constructor
    · rintro ⟨first, m₁, hfirst, last, m₂, hlast, xs, _, ⟨hxs, rfl⟩, ys, m₃, ⟨labels, hlabels, hys⟩,
        rfl, rfl⟩
      exact ⟨_, ⟨first, m₁, hfirst, last, _, hlast, labels, m₃, hlabels, rfl, rfl⟩,
        Label.expandAll_cons.mpr ⟨xs, ys, hxs, hys, rfl⟩⟩
    · rintro ⟨_, ⟨first, m₁, hfirst, last, m₂, hlast, labels, m₃, hlabels, rfl, rfl⟩, hvs⟩
      obtain ⟨xs, ys, hxs, hys, rfl⟩ := Label.expandAll_cons.mp hvs
      exact ⟨first, m₁, hfirst, last, m₂, hlast, xs, m₂, ⟨hxs, rfl⟩, ys, m₃, ⟨labels, hlabels, hys⟩,
        rfl, rfl⟩
  | case3 item items hitem ih =>
    rw [evalItems]
    · -- A single value is at hand while the items behind it are evaluated, the ends of a range are not.
      simp only [EStateM.bind_eq_ok_iff, Run.holding_eq_ok_iff, EStateM.pure_eq_ok_iff, ih]
      constructor
      · rintro ⟨v, m₁, hv, ys, m₂, ⟨m₃, ⟨labels, hlabels, hys⟩, rfl⟩, rfl, rfl⟩
        exact ⟨_, ⟨v, m₁, hv, labels, _, ⟨m₃, hlabels, rfl⟩, rfl, rfl⟩,
          Label.expandAll_cons.mpr ⟨[v], ys, rfl, hys, rfl⟩⟩
      · rintro ⟨_, ⟨v, m₁, hv, labels, m₂, ⟨m₃, hlabels, rfl⟩, rfl, rfl⟩, hvs⟩
        obtain ⟨xs, ys, hxs, hys, rfl⟩ := Label.expandAll_cons.mp hvs
        cases hxs
        exact ⟨v, m₁, hv, ys, _, ⟨m₃, ⟨labels, hlabels, hys⟩, rfl⟩, rfl, rfl⟩
    · exact hitem

namespace Value

variable {b : Basic} {n : Int} {v : Value}

/-- **Sets, labels and comparisons agree.** A range is expanded to the values from its first to its last
one in increasing order, and only a range of characters with a surrogate cannot be. A value is in the set
of a range, or named by the range as a label, just where it compares as lying between the ends. Of any
number of values and ranges it is in the set, or named by one of them as labels, just where it compares as
equal to one of the values or as lying in one of the ranges. So a test with `in` of what a constructor is
evaluated to decides as an arm of a `case` statement does whose labels are the values of its items. -/
theorem membership_agrees (hv : v.Numbered b n) :
    (∀ low high l h, low.Numbered b l → high.Numbered b h →
      (∀ items, expandRange low high = .ok items → Ascend b l h items ∧
        ∀ lower, ∃ r, binary .member v (array lower items) = .ok (boolean r) ∧
          (r = true ↔ binary .lessEqual low v = .ok (boolean true) ∧
            binary .lessEqual v high = .ok (boolean true)) ∧
          (r = true ↔ l ≤ n ∧ n ≤ h) ∧ (Label.range low high).names n = r) ∧
      ∀ f, expandRange low high = .error f ↔
        (b = .char ∧ ∃ code, 0xD800 ≤ code ∧ code ≤ 0xDFFF ∧ l ≤ code ∧ code ≤ h) ∧
          f = .overflow "ordinal") ∧
    (∀ labels : List Label, (∀ label ∈ labels, label.IsOf b) →
      (∀ items lower, Label.expandAll labels = .ok items →
        ∃ r, binary .member v (array lower items) = .ok (boolean r) ∧
          (r = true ↔ ∃ label ∈ labels, label.Fits v) ∧ labels.any (·.names n) = r) ∧
      ∀ f, Label.expandAll labels = .error f ↔
        (∃ label ∈ labels, label.Broken b) ∧ f = .overflow "ordinal") ∧
    ∀ env caller chain items lower note m s m',
      (Expr.array lower items note).eval env caller chain m = .ok s m' →
      ∃ labels, evalLabels env caller chain items m = .ok labels m' ∧
        ((∀ label ∈ labels, label.IsOf b) → ∃ r, binary .member v s = .ok (boolean r) ∧
          (r = true ↔ ∃ label ∈ labels, label.Fits v) ∧
          ∀ body arms, execArm env caller chain n (.mk labels body :: arms) =
            if r then (do return some (← body.exec env caller chain))
            else execArm env caller chain n arms) := by
  refine ⟨fun low high l h hl hh => ⟨fun items hitems => ?_, fun f => expandRange_eq_error_iff hl hh⟩,
    fun labels hlabels => ⟨fun items lower hitems => Label.member_of_expandAll hv hlabels hitems lower,
      fun f => Label.expandAll_eq_error hlabels⟩, ?_⟩
  · refine ⟨ascend_of_expandRange hl hh hitems, fun lower => ?_⟩
    have hlabel : (Label.range low high).IsOf b := ⟨⟨l, hl⟩, h, hh⟩
    obtain ⟨hfits, hany⟩ := Label.names_of_values hv hlabel
    refine ⟨(Label.range low high).names n, ?_, hfits, ?_, rfl⟩
    · rw [binary, hany items hitems]
    · rw [hfits, Label.Fits, lessEqual_of_numbered hl hv, lessEqual_of_numbered hv hh]
      simp
  · intro env caller chain items lower note m s m' heval
    obtain ⟨vs, m₁, hvs, hs⟩ := EStateM.bind_eq_ok_iff.mp (by rwa [Expr.eval] at heval)
    obtain ⟨rfl, rfl⟩ := EStateM.pure_eq_ok_iff.mp hs
    obtain ⟨labels, hlabels, hexpand⟩ := evalItems_eq_ok.mp hvs
    refine ⟨labels, hlabels, fun hof => ?_⟩
    obtain ⟨r, hmember, hfits, hnames⟩ := Label.member_of_expandAll hv hof hexpand lower
    refine ⟨r, hmember, hfits, fun body arms => ?_⟩
    rw [execArm, hnames]

/-- The letter `e` is in the set of `x` and the letters from `a` to `f`, and a `case` statement with these
labels takes it; the range from the last character before the surrogates to the first one behind them
cannot be expanded. -/
theorem membership_agrees_letters :
    let letters : List Value := "abcdef".toList.map char
    let labels : List Label := [.value (char 'x'), .range (char 'a') (char 'f')]
    Ascend .char 97 102 letters ∧
      expandRange (char '\ud7ff') (char '\ue000') = .error (.overflow "ordinal") ∧
      Label.expandAll labels = .ok (char 'x' :: letters) ∧
      binary .member (char 'e') (array 0 (char 'x' :: letters)) = .ok (boolean true) ∧
      labels.any (·.names 101) = true := by
  intro letters labels
  have hchar (c : Char) : (char c).Numbered .char c.toNat := numbered_char
  obtain ⟨hranges, hlists, -⟩ := membership_agrees (hchar 'e')
  obtain ⟨hletters, -⟩ := hranges _ _ _ _ (hchar 'a') (hchar 'f')
  obtain ⟨-, hbroken⟩ := hranges _ _ _ _ (hchar '\ud7ff') (hchar '\ue000')
  have hlabels : ∀ label ∈ labels, label.IsOf .char := by
    simp only [labels, List.forall_mem_cons, List.not_mem_nil, false_implies, implies_true, and_true]
    exact ⟨⟨_, hchar 'x'⟩, ⟨_, hchar 'a'⟩, _, hchar 'f'⟩
  have hrange : expandRange (char 'a') (char 'f') = .ok letters :=
    (expandRange_eq_ok_iff (hchar 'a') (hchar 'f')).mpr <|
      .cons (hchar 'a') <| .cons (hchar 'b') <| .cons (hchar 'c') <| .cons (hchar 'd') <|
        .cons (hchar 'e') <| .cons (hchar 'f') .nil
  have hexpand : Label.expandAll labels = .ok (char 'x' :: letters) := rfl
  obtain ⟨r, hmember, hfits, hnames⟩ := (hlists labels hlabels).1 _ 0 hexpand
  have hr : r = true := hfits.mpr ⟨.range (char 'a') (char 'f'), by simp [labels], rfl, rfl⟩
  refine ⟨(hletters letters hrange).1, ?_, hexpand, hr ▸ hmember, hnames.trans hr⟩
  exact (hbroken _).mpr ⟨⟨rfl, 0xD800, by decide, by decide, by decide, by decide⟩, rfl⟩

end Value

end Pascal
