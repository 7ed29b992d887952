import Pascal.Proofs.Value.Ordinal

/-!
# Exact arithmetic

Integers of both widths are computed in 64 bits, and what does not fit the width of the operands is an
overflow. An operation so gives the exact result or tells that the width has none. A remainder is
computed along with its quotient: of the least integer of 64 bits by minus one the quotient overflows,
and the remainder, zero, is refused with it.
-/

namespace Pascal

namespace BinaryOp

/-- The operators from two integers to the integer they compute. -/
def isArithmetic : BinaryOp → Bool
  | add | subtract | multiply | intDivide | modulo => true
  | _ => false

/-- The exact result of an operator on two integers. A quotient goes toward zero, a remainder has the
sign of the dividend, and a division by zero has no result. -/
def outcome (op : BinaryOp) (a b : Int) : Option Int :=
  match op with
  | add => some (a + b)
  | subtract => some (a - b)
  | multiply => some (a * b)
  | intDivide => if b = 0 then none else some (a.tdiv b)
  | modulo => if b = 0 then none else some (a.tmod b)
  | _ => none

/-- The remainder of the least integer of 64 bits by minus one. -/
def RefusedRemainder (op : BinaryOp) (a b : Int) : Prop :=
  op = modulo ∧ a = -0x8000000000000000 ∧ b = -1

theorem outcome_eq_none {op : BinaryOp} {a b : Int} (hop : op.isArithmetic) :
    op.outcome a b = none ↔ (op = intDivide ∨ op = modulo) ∧ b = 0 := by
  cases op <;> simp_all [isArithmetic, outcome]

end BinaryOp

namespace Value

/-- An operation on integers of type `k`, of which the exact result is `n?`, gives this result where the
type has it, and overflows where it does not. It divides by zero where there is no result. -/
structure Exact (k : Basic) (operation : String) (n? : Option Int) (r : Except Fault Value) : Prop where
  fits : ∀ n, n? = some n → k.Holds n → ∃ v, r = .ok v ∧ v.Numbered k n
  zero : r = .error .divisionByZero ↔ n? = none
  overflow : r = .error (.overflow operation) ↔ ∃ n, n? = some n ∧ ¬ k.Holds n

variable {k : Basic} {operation : String} {op : BinaryOp} {a b n : Int} {v left right : Value}

theorem exact_zero : Exact k operation none (.error .divisionByZero) where
  fits n hn := by cases hn
  zero := ⟨fun _ => rfl, fun _ => rfl⟩
  overflow := ⟨fun h => (by cases h), fun ⟨n, hn, _⟩ => (by cases hn)⟩

theorem exact_overflow (hn : ¬ k.Holds n) :
    Exact k operation (some n) (.error (.overflow operation)) where
  fits m hm hholds := by cases hm; exact absurd hholds hn
  zero := ⟨fun h => (by cases h), fun h => (by cases h)⟩
  overflow := ⟨fun _ => ⟨n, rfl, hn⟩, fun _ => rfl⟩

theorem exact_value (hv : v.Numbered k n) : Exact k operation (some n) (.ok v) where
  fits m hm _ := by cases hm; exact ⟨v, rfl, hv⟩
  zero := ⟨fun h => (by cases h), fun h => (by cases h)⟩
  overflow := ⟨fun h => (by cases h), fun ⟨m, hm, hnot⟩ => (by cases hm; exact absurd hv.holds hnot)⟩

/-- A value that is given is the exact result. -/
theorem Exact.numbered {n? : Option Int} {r : Except Fault Value} (h : Exact k operation n? r)
    (hv : r = .ok v) : ∃ n, n? = some n ∧ v.Numbered k n := by
  subst hv
  cases n? with
  | none => cases h.zero.mpr rfl
  | some n =>
    by_cases hn : k.Holds n
    · obtain ⟨w, hw, hnum⟩ := h.fits n rfl hn
      cases hw
      exact ⟨n, rfl, hnum⟩
    · cases h.overflow.mpr ⟨n, rfl, hn⟩

/-- Fitted to its width, a result is exact. -/
theorem fitting_exact : Exact k operation (some n) (fitting operation (k.value? n)) := by
  by_cases hn : k.Holds n
  · obtain ⟨v, hv, hnum⟩ := value?_of_holds hn
    rw [hv, fitting]
    exact exact_value hnum
  · rw [value?_eq_none hn, fitting]
    exact exact_overflow hn

theorem fitsLong_iff : fitsLong n ↔ Basic.long.Holds n := by
  simp [fitsLong, Basic.Holds]

/-- Both widths fit into 64 bits. -/
theorem fitsLong_of_holds (hk : (Ty.basic k).isIntegral) (hn : k.Holds n) : fitsLong n := by
  rw [fitsLong_iff]
  cases k <;> cases hk
  · simp only [Basic.Holds] at hn ⊢
    omega
  · exact hn

/-- A quotient of integers of 64 bits has 64 bits, but for that of the least one by minus one. -/
theorem fitsLong_tdiv (ha : fitsLong a) (hb : b ≠ 0) (hne : ¬ (a = -0x8000000000000000 ∧ b = -1)) :
    fitsLong (a.tdiv b) := by
  rw [fitsLong_iff, Basic.Holds] at ha ⊢
  have habs : (a.tdiv b).natAbs = a.natAbs / b.natAbs := Int.natAbs_tdiv a b
  rcases Nat.lt_or_ge 1 b.natAbs with hlt | hle
  · have hhalf : a.natAbs / b.natAbs ≤ a.natAbs / 2 := Nat.div_le_div_left hlt (by decide)
    omega
  · rcases (by omega : b = 1 ∨ b = -1) with rfl | rfl
    · rwa [Int.tdiv_one]
    · rw [Int.tdiv_neg, Int.tdiv_one]
      omega

/-- A remainder is not further from zero than the dividend. -/
theorem fitsLong_tmod (ha : fitsLong a) : fitsLong (a.tmod b) := by
  rw [fitsLong_iff, Basic.Holds] at ha ⊢
  have habs := Int.natAbs_tmod a b
  have hle := Nat.mod_le a.natAbs b.natAbs
  rcases Int.le_total 0 a with hpos | hneg
  · have := Int.tmod_nonneg b hpos
    omega
  · have hsign := Int.tmod_nonneg b (Int.neg_nonneg.mpr hneg)
    rw [Int.neg_tmod] at hsign
    omega

theorem integerArithmetic_of_none (hop : op.isArithmetic) (h : op.outcome a b = none) :
    integerArithmetic op a b = .error .divisionByZero := by
  obtain ⟨rfl | rfl, rfl⟩ := (BinaryOp.outcome_eq_none hop).mp h <;> rfl

/-- In 64 bits an operation gives its exact result if that fits. -/
theorem integerArithmetic_of_some (ha : fitsLong a) (hne : ¬ op.RefusedRemainder a b)
    (h : op.outcome a b = some n) :
    integerArithmetic op a b = if fitsLong n then .ok n else .error (.overflow op.symbol) := by
  cases op <;> simp only [BinaryOp.outcome, reduceCtorEq, Option.some.injEq] at h
  case intDivide =>
    split at h <;> cases h
    next hb => rw [integerArithmetic, if_neg hb]
  case modulo =>
    split at h <;> cases h
    next hb =>
      have hquotient : fitsLong (a.tdiv b) := fitsLong_tdiv ha hb fun hab => hne ⟨rfl, hab⟩
      have hremainder : fitsLong (a.tmod b) := fitsLong_tmod ha
      simp only [integerArithmetic, if_neg hb, hquotient, hremainder, if_true]
  all_goals
    subst h
    rfl

/-- Values of an integer type are computed by their numbers, and the result is fitted to the type. -/
theorem binary_eq (hop : op.isArithmetic) (hk : (Ty.basic k).isIntegral) (hl : left.Numbered k a)
    (hr : right.Numbered k b) :
    binary op left right = (do fitting op.symbol (k.value? (← integerArithmetic op a b))) := by
  obtain ⟨hl, ha⟩ := hl
  obtain ⟨hr, hb⟩ := hr
  have hbinary : binary op left right = left.arithmetic op right := by
    cases op <;> first | rfl | cases hop
  rw [hbinary]
  cases k <;> cases hk
  · obtain ⟨x, rfl⟩ := eq_integer hl
    obtain ⟨y, rfl⟩ := eq_integer hr
    cases ha
    cases hb
    rfl
  · obtain ⟨x, rfl⟩ := eq_long hl
    obtain ⟨y, rfl⟩ := eq_long hr
    cases ha
    cases hb
    rfl

theorem arithmetic_exact (hop : op.isArithmetic) (hk : (Ty.basic k).isIntegral)
    (hl : left.Numbered k a) (hr : right.Numbered k b) (hne : ¬ op.RefusedRemainder a b) :
    Exact k op.symbol (op.outcome a b) (binary op left right) := by
  rw [binary_eq hop hk hl hr]
  cases h : op.outcome a b with
  | none =>
    rw [integerArithmetic_of_none hop h]
    exact exact_zero
  | some n =>
    rw [integerArithmetic_of_some (fitsLong_of_holds hk hl.holds) hne h]
    split
    · exact fitting_exact
    · next hn => exact exact_overflow fun hholds => hn (fitsLong_of_holds hk hholds)

theorem negate_exact (hk : (Ty.basic k).isIntegral) (hv : v.Numbered k a) :
    Exact k "negation" (some (-a)) (unary .negate v) := by
  have hunary : unary .negate v = fitting "negation" (k.value? (-a)) := by
    obtain ⟨hv, ha⟩ := hv
    cases k <;> cases hk
    · obtain ⟨x, rfl⟩ := eq_integer hv
      cases ha
      rfl
    · obtain ⟨x, rfl⟩ := eq_long hv
      cases ha
      rfl
  rw [hunary]
  exact fitting_exact

/-- The remainder that is refused has a quotient that overflows, and no division by zero. -/
theorem binary_ne_zero_of_refused (hop : op.isArithmetic) (hk : (Ty.basic k).isIntegral)
    (hl : left.Numbered k a) (hr : right.Numbered k b) (h : op.RefusedRemainder a b) :
    binary op left right ≠ .error .divisionByZero := by
  obtain ⟨rfl, rfl, rfl⟩ := h
  rw [binary_eq hop hk hl hr]
  rintro ⟨⟩

/-- Only `div` and `mod` divide by zero, and they always do where the divisor is zero. -/
theorem binary_divisionByZero (hop : op.isArithmetic) (hk : (Ty.basic k).isIntegral)
    (hl : left.Numbered k a) (hr : right.Numbered k b) :
    binary op left right = .error .divisionByZero ↔
      (op = .intDivide ∨ op = .modulo) ∧ b = 0 := by
  by_cases hne : op.RefusedRemainder a b
  · refine ⟨fun h => absurd h (binary_ne_zero_of_refused hop hk hl hr hne), fun ⟨_, hzero⟩ => ?_⟩
    cases hne.2.2.symm.trans hzero
  · rw [(arithmetic_exact hop hk hl hr hne).zero, BinaryOp.outcome_eq_none hop]

/-- A quotient and a remainder of the same operands make up the dividend. -/
theorem division_law {q r : Value} (hk : (Ty.basic k).isIntegral) (hl : left.Numbered k a)
    (hr : right.Numbered k b) (hq : binary .intDivide left right = .ok q)
    (hrem : binary .modulo left right = .ok r) :
    ∃ m n, q.Numbered k m ∧ r.Numbered k n ∧ m * b + n = a ∧ n.natAbs < b.natAbs ∧
      (0 ≤ a → 0 ≤ n) ∧ (a ≤ 0 → n ≤ 0) := by
  have hne : ¬ BinaryOp.modulo.RefusedRemainder a b := by
    rintro ⟨-, rfl, rfl⟩
    rw [binary_eq rfl hk hl hr] at hrem
    cases hrem
  obtain ⟨m, hm, hqnum⟩ :=
    (arithmetic_exact rfl hk hl hr fun h => (by cases h.1)).numbered hq
  obtain ⟨n, hn, hrnum⟩ := (arithmetic_exact rfl hk hl hr hne).numbered hrem
  simp only [BinaryOp.outcome] at hm hn
  split at hm <;> cases hm
  next hb =>
    rw [if_neg hb] at hn
    cases hn
    refine ⟨_, _, hqnum, hrnum, Int.tdiv_mul_add_tmod a b, ?_, Int.tmod_nonneg b, fun ha => ?_⟩
    · rw [Int.natAbs_tmod]
      exact Nat.mod_lt _ (Int.natAbs_pos.mpr hb)
    · have hsign := Int.tmod_nonneg b (Int.neg_nonneg.mpr ha)
      rw [Int.neg_tmod] at hsign
      omega

/-- **Integers of both widths are computed exactly.** Of two integers of one width each operation gives
the exact result if the width has it and otherwise overflows, but for the remainder of the least integer
of 64 bits by minus one. It divides by zero just where the divisor of `div` or `mod` is zero. A quotient
and a remainder make up the dividend, where the remainder is nearer to zero than the divisor and has the
sign of the dividend. The negation of an integer is exact or overflows as well. -/
theorem integers_exact (hk : (Ty.basic k).isIntegral) (hl : left.Numbered k a)
    (hr : right.Numbered k b) :
    (∀ op : BinaryOp, op.isArithmetic → ¬ op.RefusedRemainder a b →
      Exact k op.symbol (op.outcome a b) (binary op left right)) ∧
    (∀ op : BinaryOp, op.isArithmetic → (binary op left right = .error .divisionByZero ↔
      (op = .intDivide ∨ op = .modulo) ∧ b = 0)) ∧
    (∀ q r, binary .intDivide left right = .ok q → binary .modulo left right = .ok r →
      ∃ m n, q.Numbered k m ∧ r.Numbered k n ∧ m * b + n = a ∧ n.natAbs < b.natAbs ∧
        (0 ≤ a → 0 ≤ n) ∧ (a ≤ 0 → n ≤ 0)) ∧
    Exact k "negation" (some (-a)) (unary .negate left) :=
  ⟨fun _ hop hne => arithmetic_exact hop hk hl hr hne,
    fun _ hop => binary_divisionByZero hop hk hl hr,
    fun _ _ hq hrem => division_law hk hl hr hq hrem,
    negate_exact hk hl⟩

/-- The least integer of 32 bits is divided by minus one with an overflow, and its remainder is zero. -/
theorem integers_exact_least :
    binary .intDivide (integer (-2147483648)) (integer (-1)) = .error (.overflow "div") ∧
      (∃ v, binary .modulo (integer (-2147483648)) (integer (-1)) = .ok v ∧ v.Numbered .integer 0) ∧
      unary .negate (integer (-2147483648)) = .error (.overflow "negation") := by
  have hleast : (integer (-2147483648)).Numbered .integer (-2147483648) := ⟨rfl, rfl⟩
  have hunit : (integer (-1)).Numbered .integer (-1) := ⟨rfl, rfl⟩
  obtain ⟨hexact, -, -, hneg⟩ := integers_exact rfl hleast hunit
  refine ⟨?_, ?_, ?_⟩
  · exact (hexact .intDivide rfl fun h => (by cases h.1)).overflow.mpr
      ⟨2147483648, rfl, fun h => absurd h.2 (by decide)⟩
  · exact (hexact .modulo rfl fun h => absurd h.2.1 (by decide)).fits 0 rfl ⟨by decide, by decide⟩
  · exact hneg.overflow.mpr ⟨2147483648, rfl, fun h => absurd h.2 (by decide)⟩

/-- In 64 bits the same remainder overflows, though zero is its exact value. -/
theorem integers_exact_refused :
    (long (-9223372036854775808)).Numbered .long (-9223372036854775808) ∧
      (long (-1)).Numbered .long (-1) ∧
      BinaryOp.modulo.outcome (-9223372036854775808) (-1) = some 0 ∧ Basic.long.Holds 0 ∧
      binary .modulo (long (-9223372036854775808)) (long (-1)) = .error (.overflow "mod") ∧
      ¬ Exact .long "mod" (BinaryOp.modulo.outcome (-9223372036854775808) (-1))
        (binary .modulo (long (-9223372036854775808)) (long (-1))) := by
  have hzero : Basic.long.Holds 0 := ⟨by decide, by decide⟩
  refine ⟨⟨rfl, rfl⟩, ⟨rfl, rfl⟩, rfl, hzero, rfl, fun h => ?_⟩
  obtain ⟨v, hv, -⟩ := h.fits 0 rfl hzero
  cases hv

end Value

end Pascal
