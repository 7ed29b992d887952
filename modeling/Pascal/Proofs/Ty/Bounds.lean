import Pascal.Ty.Subrange

/-!
# Bounds of 64 bits

A range of less than `2 ^ 63` indices has the bounds and the size that it is declared with. A size beyond
that goes round: the range is open then, or it has no indices at all.
-/

namespace Pascal.Subrange

variable {lower upper : Int64} {r : Subrange}

theorem between?_eq_some : between? lower upper = some r ↔
    lower ≤ upper ∧ r.lower = lower ∧ r.size = upper - lower + 1 := by
  unfold between?
  split
  · next h => simp [Int64.not_le.mpr h]
  · next h =>
    constructor
    · rintro ⟨⟩
      exact ⟨Int64.not_lt.mp h, rfl, rfl⟩
    · rintro ⟨-, hlower, hsize⟩
      exact congrArg some (Subrange.ext hlower.symm hsize.symm)

theorem isOpen_eq_false_iff : r.isOpen = false ↔ 0 ≤ r.size.toInt := by
  rw [isOpen, decide_eq_false_iff_not, Int64.lt_iff_toInt_lt, Int64.toInt_zero, Int.not_lt]

theorem upper_eq (h : r.size = upper - r.lower + 1) : r.upper = upper := by
  rw [Subrange.upper]
  grind

theorem isOpen_eq_false (h : 0 < r.size) : r.isOpen = false :=
  isOpen_eq_false_iff.mpr (Int.le_of_lt (Int64.lt_iff_toInt_lt.mp h))

/-- The last of the indices from `lower` on, where 64 bits hold it. -/
theorem toInt_last {size : Int64} (hpos : 0 < size.toInt)
    (hbounded : lower.toInt + size.toInt ≤ 0x8000000000000000) :
    (lower + size - 1).toInt = lower.toInt + size.toInt - 1 := by
  have hlower := lower.le_toInt
  have hexact : lower + size - 1 = Int64.ofInt (lower.toInt + size.toInt - 1) := by
    simp [Int64.ofInt_add, Int64.ofInt_sub]
  rw [hexact]
  exact Int64.toInt_ofInt_of_le (by omega) (by omega)

/-- The last index of a range that has one. -/
theorem toInt_upper (h : 0 < r.size) : r.upper.toInt = r.lower.toInt + r.size.toInt - 1 :=
  toInt_last (Int64.lt_iff_toInt_lt.mp h) r.bounded

theorem lower_le_upper (h : 0 < r.size) : r.lower ≤ r.upper := by
  have hpos := Int64.lt_iff_toInt_lt.mp h
  rw [Int64.toInt_zero] at hpos
  rw [Int64.le_iff_toInt_le, toInt_upper h]
  omega

/-- A range with indices is the one between its first and its last index. -/
theorem between?_upper (h : 0 < r.size) : between? r.lower r.upper = some r := by
  refine between?_eq_some.mpr ⟨lower_le_upper h, rfl, ?_⟩
  rw [Subrange.upper]
  grind

theorem length_lt (r : Subrange) : r.length < 0x8000000000000000 := by
  have hsize := r.size.toInt_lt
  rw [length]
  omega

theorem lower_add_length (r : Subrange) : r.lower.toInt + r.length ≤ 0x8000000000000000 := by
  have hbounded := r.bounded
  have hlower := r.lower.toInt_lt
  rw [length]
  omega

/-- The size of a declared range goes round where 64 bits do not hold it. -/
theorem toInt_size (h : between? lower upper = some r)
    (hsize : upper.toInt - lower.toInt + 1 < 0x8000000000000000) :
    r.size.toInt = upper.toInt - lower.toInt + 1 := by
  obtain ⟨hle, -, hr⟩ := between?_eq_some.mp h
  have hle := Int64.le_iff_toInt_le.mp hle
  have hexact : r.size = Int64.ofInt (upper.toInt - lower.toInt + 1) := by
    rw [hr, Int64.ofInt_add, Int64.ofInt_sub, Int64.ofInt_toInt, Int64.ofInt_toInt]
    rfl
  rw [hexact]
  exact Int64.toInt_ofInt_of_le (by omega) hsize

/-- A declared range of less than `2 ^ 63` indices is closed and has all of them. -/
theorem between?_closed (h : between? lower upper = some r)
    (hsize : upper.toInt - lower.toInt + 1 < 0x8000000000000000) :
    r.isOpen = false ∧ r.lower = lower ∧ r.upper = upper ∧
      (r.length : Int) = upper.toInt - lower.toInt + 1 := by
  have hexact := toInt_size h hsize
  obtain ⟨hle, hlower, hr⟩ := between?_eq_some.mp h
  have hpos : 0 ≤ r.size.toInt := by
    have hle := Int64.le_iff_toInt_le.mp hle
    omega
  exact ⟨isOpen_eq_false_iff.mpr hpos, hlower, upper_eq (hlower ▸ hr),
    (Int.toNat_of_nonneg hpos).trans hexact⟩

/-- A range of more indices comes out open. -/
example : (between? (-5000000000000000000) 5000000000000000000).map (·.isOpen) = some true := by decide

end Pascal.Subrange
