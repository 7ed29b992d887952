import Pascal.Proofs.Value.Arithmetic
import Pascal.Proofs.Value.Encoded

/-!
# Operators on widened operands

An operator applies to the common type of its operands, to which the other operand has been converted.
That a program may rely on this takes that an operator does the same before and after: integers of 32
bits are computed as integers of 64 bits are, and characters are ordered as their codes and as the
strings that consist of them.
-/

namespace Pascal

/-- The operators that work on integers bit by bit. -/
def BinaryOp.isLogical : BinaryOp → Bool
  | and | or | xor => true
  | _ => false

namespace Value

variable {b b' : Basic} {m n : Int} {op : BinaryOp} {v w left right left' right' : Value}

/-- An integer widens to the one of 64 bits with its number. -/
theorem widen_integer (a : Int32) :
    (Conversion.widen .integer .long).apply (integer a) = .ok (long a.toInt64) := by
  rw [← Int64.ofInt_int32ToInt]
  rfl

theorem widen_of_numbered (hv : v.Numbered .integer n) (hw : w.Numbered .long n) :
    (Conversion.widen .integer .long).apply v = .ok w := by
  obtain ⟨x, rfl⟩ := eq_integer hv.kind
  have hx : (long x.toInt64).Numbered .long n := ⟨rfl, by
    rw [← hv.number, asOrdinal, asOrdinal, Int32.toInt_toInt64]⟩
  rw [widen_integer, hx.unique hw]

theorem numbered_widened (a : Int32) : (long a.toInt64).Numbered .long a.toInt :=
  ⟨rfl, by rw [asOrdinal, Int32.toInt_toInt64]⟩

/-- Numbers of 32 bits are numbers of 64 bits. -/
theorem holds_long (h : Basic.integer.Holds n) : Basic.long.Holds n :=
  fitsLong_iff.mp (fitsLong_of_holds rfl h)

/-- An exact result of 32 bits is the widened one of 64 bits. -/
theorem Exact.widened {operation : String} {n? : Option Int} {r r' : Except Fault Value}
    (h : Exact .integer operation n? r) (h' : Exact .long operation n? r') (hr : r = .ok v) :
    ∃ w, (Conversion.widen .integer .long).apply v = .ok w ∧ r' = .ok w := by
  obtain ⟨n, hn, hv⟩ := h.numbered hr
  obtain ⟨w, hw, hnum⟩ := h'.fits n hn (holds_long hv.holds)
  exact ⟨w, widen_of_numbered hv hnum, hw⟩

theorem not_refused (op : BinaryOp) (a : Int32) (n : Int) : ¬ op.RefusedRemainder a.toInt n := by
  rintro ⟨-, ha, -⟩
  have := a.le_toInt
  omega

theorem arithmetic_widened (hop : op.isArithmetic) {a b : Int32}
    (hv : binary op (integer a) (integer b) = .ok v) :
    ∃ w, (Conversion.widen .integer .long).apply v = .ok w ∧
      binary op (long a.toInt64) (long b.toInt64) = .ok w :=
  (arithmetic_exact hop rfl numbered_integer numbered_integer (not_refused op a b.toInt)).widened
    (arithmetic_exact hop rfl (numbered_widened a) (numbered_widened b) (not_refused op a b.toInt)) hv

/-- Bits are combined after the sign bit has been repeated as they are before. -/
theorem logical_widened (hop : op.isLogical) {a b : Int32}
    (hv : binary op (integer a) (integer b) = .ok v) :
    ∃ w, (Conversion.widen .integer .long).apply v = .ok w ∧
      binary op (long a.toInt64) (long b.toInt64) = .ok w := by
  cases op <;> cases hop <;> cases hv
  case and => exact ⟨_, widen_integer _, by rw [Int32.toInt64_and]; rfl⟩
  case or => exact ⟨_, widen_integer _, by rw [Int32.toInt64_or]; rfl⟩
  case xor => exact ⟨_, widen_integer _, by rw [Int32.toInt64_xor]; rfl⟩

theorem toInt64_not (a : Int32) : (~~~a).toInt64 = ~~~a.toInt64 := by
  rw [← Int64.toBitVec_inj, Int32.toBitVec_toInt64, Int32.toBitVec_not, Int64.toBitVec_not,
    Int32.toBitVec_toInt64, BitVec.signExtend_not (by decide)]

theorem unary_widened {op : UnaryOp} {a : Int32} (hv : unary op (integer a) = .ok v) :
    ∃ w, (Conversion.widen .integer .long).apply v = .ok w ∧ unary op (long a.toInt64) = .ok w := by
  cases op with
  | not =>
    cases hv
    exact ⟨_, widen_integer _, by rw [toInt64_not]; rfl⟩
  | negate =>
    exact (negate_exact rfl numbered_integer).widened (negate_exact rfl (numbered_widened a)) hv

/-- A division by zero is one in both widths, and a comparison or a combination of bits is none. -/
theorem divisionByZero_widened (hop : op.isArithmetic ∨ op.isLogical ∨ op.isComparison) (a b : Int32) :
    binary op (integer a) (integer b) = .error .divisionByZero ↔
      binary op (long a.toInt64) (long b.toInt64) = .error .divisionByZero := by
  by_cases harith : op.isArithmetic
  · rw [binary_divisionByZero harith rfl numbered_integer numbered_integer,
      binary_divisionByZero harith rfl (numbered_widened a) (numbered_widened b)]
  · refine iff_of_false ?_ ?_ <;>
    · intro h
      cases op <;> first | cases h | simp_all [BinaryOp.isArithmetic, BinaryOp.isLogical,
        BinaryOp.isComparison]

/-! ## Comparisons -/

/-- A comparison depends on whether its operands are equal and on how they are ordered. -/
theorem binary_congr (hop : op.isComparison) (hequals : left.equals right = left'.equals right')
    (hcompare : left.compare right = left'.compare right') :
    binary op left right = binary op left' right' := by
  cases op <;> cases hop <;> simp only [binary, hequals, hcompare]

theorem binary_boolean (hop : op.isComparison) {o : Option Ordering}
    (h : left.compare right = .ok o) : ∃ r, binary op left right = .ok (boolean r) := by
  cases op <;> cases hop <;> simp only [binary, h] <;> exact ⟨_, rfl⟩

theorem equals_of_numbered (hl : left.Numbered b m) (hr : right.Numbered b n) :
    left.equals right = decide (m = n) := by
  obtain ⟨hl, hm⟩ := hl
  obtain ⟨hr, hn⟩ := hr
  cases left <;> cases hl <;> cases right <;> cases hr <;> cases hm <;> cases hn
  case boolean x y => cases x <;> cases y <;> rfl
  case integer x y => exact Bool.eq_iff_iff.mpr (by simp [equals, same, Int32.toInt_inj])
  case long x y => exact Bool.eq_iff_iff.mpr (by simp [equals, same, Int64.toInt_inj])
  case char x y =>
    have hcode : x = y ↔ (x.toNat : Int) = y.toNat := Char.toNat_inj.symm.trans Int.ofNat_inj.symm
    exact Bool.eq_iff_iff.mpr (by simpa only [equals, same, beq_iff_eq, decide_eq_true_eq] using hcode)

theorem compare_of_numbered (hl : left.Numbered b m) (hr : right.Numbered b n) :
    left.compare right = .ok (order m n) := by
  obtain ⟨hl, hm⟩ := hl
  obtain ⟨hr, hn⟩ := hr
  cases left <;> cases hl <;> cases right <;> cases hr <;> cases hm <;> cases hn
  case boolean x y => cases x <;> cases y <;> rfl
  case integer x y => rfl
  case long x y => rfl
  case char x y =>
    have hcode (c d : Char) : (c.toNat : Int) < d.toNat ↔ c < d := Int.ofNat_lt
    exact congrArg Except.ok (order_congr (fun c : Char => (c.toNat : Int)) hcode x y).symm

/-- Values of two types are compared alike if they have the same numbers. -/
theorem comparison_of_numbered (hop : op.isComparison) (hl : left.Numbered b m)
    (hr : right.Numbered b n) (hl' : left'.Numbered b' m) (hr' : right'.Numbered b' n) :
    binary op left right = binary op left' right' :=
  binary_congr hop (by rw [equals_of_numbered hl hr, equals_of_numbered hl' hr'])
    (by rw [compare_of_numbered hl hr, compare_of_numbered hl' hr'])

theorem compare_toString (c d : Char) :
    (string c.toString).compare (string d.toString) = (char c).compare (char d) := by
  refine congrArg Except.ok (order_congr Char.toString (fun c d => ?_) c d)
  rw [String.lt_iff]
  simp [List.cons_lt_cons_iff]

theorem equals_toString (c d : Char) :
    (string c.toString).equals (string d.toString) = (char c).equals (char d) := by
  simp [equals, same]

/-- A character becomes the integer of its code, in both widths. -/
theorem between?_char {t : Ty} (ht : t ∈ [Ty.integer, Ty.long]) :
    ∃ b f, Conversion.between? .char t = some f ∧
      ∀ c : Char, ∃ v, f.apply (char c) = .ok v ∧ v.Numbered b c.toNat := by
  have hcode (c : Char) : (c.toNat : Int) < 0x110000 := by
    have hc := (numbered_char (c := c)).holds
    simp only [Basic.Holds] at hc
    omega
  simp only [List.mem_cons, List.not_mem_nil, or_false] at ht
  rcases ht with rfl | rfl
  · refine ⟨_, _, rfl, fun c => ⟨_, rfl, rfl, congrArg Except.ok (Int32.toInt_ofNat_of_lt ?_)⟩⟩
    have := hcode c
    omega
  · refine ⟨_, _, rfl, fun c => ⟨_, rfl, rfl, congrArg Except.ok (Int64.toInt_ofInt_of_le ?_ ?_)⟩⟩
    · omega
    · have := hcode c
      omega

/-- Converted characters are compared as the characters are. -/
theorem comparison_converted (hop : op.isComparison) (c d : Char) {t : Ty}
    (ht : t ∈ [Ty.integer, Ty.long, Ty.string]) :
    ∃ f v w, Conversion.between? .char t = some f ∧ f.apply (char c) = .ok v ∧
      f.apply (char d) = .ok w ∧ binary op v w = binary op (char c) (char d) := by
  by_cases hnum : t ∈ [Ty.integer, Ty.long]
  · obtain ⟨b, f, hf, happly⟩ := between?_char hnum
    obtain ⟨v, hv, hvnum⟩ := happly c
    obtain ⟨w, hw, hwnum⟩ := happly d
    exact ⟨f, v, w, hf, hv, hw,
      comparison_of_numbered hop hvnum hwnum numbered_char numbered_char⟩
  · have hstring : t = .string := by simp_all
    subst hstring
    exact ⟨_, _, _, rfl, rfl, rfl, binary_congr hop (equals_toString c d) (compare_toString c d)⟩

/-- **Widening commutes with operators.** Integers of 32 bits convert to integers of 64 bits. What an
operator gives on two of them converts to what it gives on the converted ones; a comparison gives the
same boolean, and both divide by zero or none does. Characters convert to integers of both widths and to
strings, and any comparison of two gives the boolean that it gives on what they convert to. Strings are
compared by the bytes that encode them. -/
theorem widening_commutes :
    (∀ a b : Int32, ∃ f v w, Conversion.between? .integer .long = some f ∧
      f.apply (integer a) = .ok v ∧ f.apply (integer b) = .ok w ∧
      (∀ op : BinaryOp, op.isArithmetic ∨ op.isLogical → ∀ x, binary op (integer a) (integer b) = .ok x →
        ∃ y, f.apply x = .ok y ∧ binary op v w = .ok y) ∧
      (∀ op : BinaryOp, op.isComparison → ∃ r, binary op (integer a) (integer b) = .ok (boolean r) ∧
        binary op v w = .ok (boolean r)) ∧
      (∀ op : BinaryOp, op.isArithmetic ∨ op.isLogical ∨ op.isComparison →
        (binary op (integer a) (integer b) = .error .divisionByZero ↔
          binary op v w = .error .divisionByZero)) ∧
      ∀ (op : UnaryOp) (x : Value), unary op (integer a) = .ok x →
        ∃ y, f.apply x = .ok y ∧ unary op v = .ok y) ∧
    (∀ (c d : Char) (op : BinaryOp), op.isComparison →
      ∃ r, binary op (char c) (char d) = .ok (boolean r) ∧
        ∀ t ∈ [Ty.integer, Ty.long, Ty.string], ∃ f v w, Conversion.between? .char t = some f ∧
          f.apply (char c) = .ok v ∧ f.apply (char d) = .ok w ∧ binary op v w = .ok (boolean r)) ∧
    ∀ s t : String, (string s).compare (string t) = .ok (order (encoded s) (encoded t)) := by
  refine ⟨fun a b => ⟨_, _, _, rfl, widen_integer a, widen_integer b, ?_, ?_, ?_, ?_⟩, ?_, ?_⟩
  · rintro op (hop | hop) x hx
    · exact arithmetic_widened hop hx
    · exact logical_widened hop hx
  · intro op hop
    obtain ⟨r, hr⟩ :=
      binary_boolean hop (compare_of_numbered (numbered_integer (x := a)) (numbered_integer (x := b)))
    refine ⟨r, hr, ?_⟩
    rw [← hr]
    exact comparison_of_numbered hop (numbered_widened a) (numbered_widened b) numbered_integer
      numbered_integer
  · exact fun op hop => divisionByZero_widened hop a b
  · exact fun op x hx => unary_widened hx
  · intro c d op hop
    obtain ⟨r, hr⟩ :=
      binary_boolean hop (compare_of_numbered (numbered_char (c := c)) (numbered_char (c := d)))
    refine ⟨r, hr, fun t ht => ?_⟩
    obtain ⟨f, v, w, hf, hv, hw, heq⟩ := comparison_converted hop c d ht
    exact ⟨f, v, w, hf, hv, hw, heq.trans hr⟩
  · intro s t
    rw [order_encoded]
    rfl

/-- A sum of two integers, a comparison of two characters and one of the strings they convert to. -/
theorem widening_commutes_sum :
    (∃ f y, Conversion.between? .integer .long = some f ∧ f.apply (integer 5) = .ok y ∧
      binary .add (long 7) (long (-2)) = .ok y) ∧
    ∃ f v w, Conversion.between? .char .string = some f ∧ f.apply (char 'z') = .ok v ∧
      f.apply (char '\u00e9') = .ok w ∧ binary .less v w = .ok (boolean true) := by
  obtain ⟨hints, hchars, -⟩ := widening_commutes
  constructor
  · obtain ⟨f, v, w, hf, hv, hw, harith, -⟩ := hints 7 (-2)
    obtain ⟨y, hy, hsum⟩ := harith .add (.inl rfl) (integer 5) rfl
    cases hf
    cases hv
    cases hw
    exact ⟨_, y, rfl, hy, hsum⟩
  · obtain ⟨r, hr, hall⟩ := hchars 'z' '\u00e9' .less rfl
    obtain ⟨f, v, w, hf, hv, hw, hless⟩ := hall .string (by simp)
    cases hr
    exact ⟨f, v, w, hf, hv, hw, hless⟩

end Value

end Pascal
