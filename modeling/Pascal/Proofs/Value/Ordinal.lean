import Pascal.Proofs.Typing.Operator

/-!
# Values by their numbers

A value of an ordinal type is determined by its number. Which numbers a type has says where
counting, widening and arithmetic give a value and where they overflow.
-/

namespace Pascal

/-- The numbers that the values of a type have. A character has the number of its code. -/
def Basic.Holds : Basic → Int → Prop
  | .boolean, n => n = 0 ∨ n = 1
  | .char, n => (0 ≤ n ∧ n < 0xD800) ∨ (0xDFFF < n ∧ n < 0x110000)
  | .integer, n => -0x80000000 ≤ n ∧ n < 0x80000000
  | .long, n => -0x8000000000000000 ≤ n ∧ n < 0x8000000000000000
  | .double, _ | .string, _ => False

/-- The value of an ordinal type with a number, if there is one. -/
def Basic.value? : Basic → Int → Option Value
  | .boolean, n => if n = 0 then some (.boolean false) else if n = 1 then some (.boolean true) else none
  | .char, n => Value.char? n
  | .integer, n => Value.integer? n
  | .long, n => Value.long? n
  | .double, _ | .string, _ => none

/-- The value is the one of type `b` with the number `n`. -/
structure Value.Numbered (b : Basic) (n : Int) (v : Value) : Prop where
  kind : v.basic? = some b
  number : v.asOrdinal = .ok n

namespace Value

variable {b : Basic} {m n : Int} {v w : Value}

theorem numbered_integer {x : Int32} : (integer x).Numbered .integer x.toInt := ⟨rfl, rfl⟩

theorem numbered_char {c : Char} : (char c).Numbered .char c.toNat := ⟨rfl, rfl⟩

namespace Numbered

/-- The number of a value is one that its type has. -/
theorem holds (h : v.Numbered b n) : b.Holds n := by
  obtain ⟨hkind, hnumber⟩ := h
  cases v <;> cases hkind <;> cases hnumber
  case boolean x => cases x <;> simp [Basic.Holds]
  case integer x => exact ⟨x.le_toInt, x.toInt_lt⟩
  case long x => exact ⟨x.le_toInt, x.toInt_lt⟩
  case char x =>
    have hcode : x.toNat < 0xD800 ∨ 0xDFFF < x.toNat ∧ x.toNat < 0x110000 := x.valid
    simp only [Basic.Holds]
    omega

/-- No two values of a type have one number. -/
theorem unique (hv : v.Numbered b n) (hw : w.Numbered b n) : v = w := by
  obtain ⟨hv, hn⟩ := hv
  obtain ⟨hw, hn'⟩ := hw
  have h := hn.trans hn'.symm
  cases v <;> cases hv <;> cases w <;> cases hw <;> cases hn
  case boolean x y => cases x <;> cases y <;> first | rfl | cases h
  case integer x y => rw [Int32.toInt_inj.mp (Except.ok.inj h)]
  case long x y => rw [Int64.toInt_inj.mp (Except.ok.inj h)]
  case char x y =>
    have hcode : x.toNat = y.toNat := Int.ofNat_inj.mp (Except.ok.inj h)
    rw [← Char.ofNat_toNat x, hcode, Char.ofNat_toNat]

end Numbered

/-- Where a type has a number, it has a value with this number. -/
theorem value?_of_holds (h : b.Holds n) : ∃ w, b.value? n = some w ∧ w.Numbered b n := by
  cases b
  case boolean =>
    rcases h with rfl | rfl
    · exact ⟨boolean false, rfl, rfl, rfl⟩
    · exact ⟨boolean true, rfl, rfl, rfl⟩
  case integer => exact ⟨_, if_pos h, rfl, congrArg Except.ok (Int32.toInt_ofInt_of_le h.1 h.2)⟩
  case long => exact ⟨_, if_pos h, rfl, congrArg Except.ok (Int64.toInt_ofInt_of_le h.1 h.2)⟩
  case char =>
    refine ⟨_, if_pos h, rfl, ?_⟩
    simp only [Basic.Holds] at h
    have hvalid : n.toNat.isValidChar := by
      unfold Nat.isValidChar
      omega
    have hcode : (Char.ofNat n.toNat).toNat = n.toNat := by
      rw [Char.ofNat, dif_pos hvalid]
      rfl
    rw [asOrdinal, hcode, Int.toNat_of_nonneg (by omega)]
  case double => exact h.elim
  case string => exact h.elim

theorem value?_eq_none (h : ¬ b.Holds n) : b.value? n = none := by
  cases b
  case boolean =>
    obtain ⟨h0, h1⟩ := not_or.mp h
    rw [Basic.value?, if_neg h0, if_neg h1]
  case double => rfl
  case string => rfl
  all_goals exact if_neg h

theorem withOrdinal_eq (hv : v.basic? = some b) (hb : (Ty.basic b).isOrdinal) :
    v.withOrdinal n = orOverflow (b.value? n) := by
  cases v <;> cases hv <;> first | rfl | cases hb

end Value

end Pascal
