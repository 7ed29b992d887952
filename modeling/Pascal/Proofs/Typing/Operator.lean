import Pascal.Proofs.Typing.Build
import Pascal.Proofs.Typing.HasType

/-!
# Operations on values of the right types

On values of the types that an operation is typed for it gives values of the type of its result, or it
fails for a reason that depends on the values alone.
-/

namespace Pascal

/-- Faults that do not tell of a value of a wrong kind or of a broken rule. An array without items that
starts at the least of all indices takes other indices for its own, with an offset that goes round. -/
def Fault.Regular : Fault → Prop
  | .invalidValue _ _ => False
  | .internal what => what = "negative offset"
  | _ => True

/-- An operation gives what has `P` or fails for a regular reason. -/
def Gives {α : Type} (x : Except Fault α) (P : α → Prop) : Prop :=
  match x with
  | .ok a => P a
  | .error f => f.Regular

namespace Gives

variable {α β : Type} {x : Except Fault α} {P : α → Prop} {Q : β → Prop}

theorem bind {f : α → Except Fault β} (h : Gives x P) (hf : ∀ a, P a → Gives (f a) Q) :
    Gives (x >>= f) Q := by
  cases x with
  | ok a => exact hf a h
  | error e => exact h

theorem mono {R : α → Prop} (h : Gives x P) (hR : ∀ a, P a → R a) : Gives x R := by
  cases x with
  | ok a => exact hR a h
  | error e => exact h

theorem of_eq {a : α} (h : x = .ok a) (ha : P a) : Gives x P := h ▸ ha

end Gives

namespace Value

variable {cells : List Ty} {v w : Value} {b : Basic}

/-- Ordinals are told apart from other values by their types. -/
theorem asOrdinal_of_basic (h : v.basic? = some b) (hb : (Ty.basic b).isOrdinal) :
    ∃ n, v.asOrdinal = .ok n := by
  cases v <;> cases h <;> first | exact ⟨_, rfl⟩ | cases hb

/-- All ordinals are numbers of 64 bits. -/
theorem fitsLong_of_asOrdinal {n : Int} (h : v.asOrdinal = .ok n) : fitsLong n := by
  simp only [fitsLong, Bool.and_eq_true, decide_eq_true_eq]
  cases v with
  | boolean x => cases h; cases x <;> decide
  | integer x =>
    cases h
    have := x.le_toInt
    have := x.toInt_lt
    omega
  | long x =>
    cases h
    have := x.le_toInt
    have := x.toInt_lt
    omega
  | char x =>
    cases h
    have hcode : x.toNat < 0xD800 ∨ 0xDFFF < x.toNat ∧ x.toNat < 0x110000 := x.valid
    omega
  | _ => cases h

theorem toInt_ofInt_of_asOrdinal {n : Int} (h : v.asOrdinal = .ok n) : (Int64.ofInt n).toInt = n := by
  have hfits := fitsLong_of_asOrdinal h
  simp only [fitsLong, Bool.and_eq_true, decide_eq_true_eq] at hfits
  exact Int64.toInt_ofInt_of_le (by omega) (by omega)

theorem eq_double (h : v.basic? = some .double) : ∃ x, v = double x := by
  cases v <;> cases h
  exact ⟨_, rfl⟩

theorem eq_boolean (h : v.basic? = some .boolean) : ∃ x, v = boolean x := by
  cases v <;> cases h
  exact ⟨_, rfl⟩

theorem eq_integer (h : v.basic? = some .integer) : ∃ x, v = integer x := by
  cases v <;> cases h
  exact ⟨_, rfl⟩

theorem eq_long (h : v.basic? = some .long) : ∃ x, v = long x := by
  cases v <;> cases h
  exact ⟨_, rfl⟩

theorem eq_char (h : v.basic? = some .char) : ∃ x, v = char x := by
  cases v <;> cases h
  exact ⟨_, rfl⟩

theorem eq_string (h : v.basic? = some .string) : ∃ x, v = string x := by
  cases v <;> cases h
  exact ⟨_, rfl⟩

theorem basic_of_integer? {n : Int} (h : integer? n = some v) : v.basic? = some .integer := by
  unfold integer? at h
  split at h <;> cases h
  rfl

theorem basic_of_long? {n : Int} (h : long? n = some v) : v.basic? = some .long := by
  unfold long? at h
  split at h <;> cases h
  rfl

theorem basic_of_char? {n : Int} (h : char? n = some v) : v.basic? = some .char := by
  unfold char? at h
  split at h <;> cases h
  rfl

private theorem fitting_gives {operation : String} {x : Option Value}
    (h : ∀ v, x = some v → v.basic? = some b) :
    Gives (fitting operation x) (·.basic? = some b) := by
  cases x with
  | none => trivial
  | some v => exact h v rfl

private theorem orOverflow_gives {x : Option Value} (h : ∀ v, x = some v → v.basic? = some b) :
    Gives (orOverflow x) (·.basic? = some b) := by
  cases x with
  | none => trivial
  | some v => exact h v rfl

/-- The value with another number is of the same ordinal type. -/
theorem withOrdinal_gives (h : v.basic? = some b) (hb : (Ty.basic b).isOrdinal) (n : Int) :
    Gives (v.withOrdinal n) (·.basic? = some b) := by
  cases v <;> cases h
  · refine orOverflow_gives fun v hv => ?_
    split at hv
    · cases hv; rfl
    · split at hv <;> cases hv
      rfl
  · exact orOverflow_gives fun _ => basic_of_integer?
  · exact orOverflow_gives fun _ => basic_of_long?
  · cases hb
  · exact orOverflow_gives fun _ => basic_of_char?
  · cases hb

theorem ordinalsFrom_gives (h : v.basic? = some b) (hb : (Ty.basic b).isOrdinal) (count : Nat)
    (n : Int) (before : List Value) (hbefore : ∀ w ∈ before, w.basic? = some b) :
    Gives (v.ordinalsFrom n before count) (fun ws => ∀ w ∈ ws, w.basic? = some b) := by
  induction count generalizing n before with
  | zero => exact fun w hw => hbefore w (List.mem_reverse.mp hw)
  | succ count ih =>
    refine (withOrdinal_gives h hb n).bind fun w hw => ih (n + 1) (w :: before) ?_
    simpa using ⟨hw, hbefore⟩

theorem unary_gives {op : UnaryOp} {t : Ty} (h : op.Takes t) (hv : v.HasType cells t) :
    Gives (unary op v) (HasType cells t) := by
  cases t with
  | basic b =>
    have hv : v.basic? = some b := hv
    have hint : v.basic? = some .integer → b = .integer →
        Gives (unary op v) (HasType cells (.basic b)) := by
      rintro hv rfl
      obtain ⟨n, rfl⟩ := eq_integer hv
      cases op with
      | not => rfl
      | negate => exact fitting_gives fun _ => basic_of_integer?
    have hlong : v.basic? = some .long → b = .long →
        Gives (unary op v) (HasType cells (.basic b)) := by
      rintro hv rfl
      obtain ⟨n, rfl⟩ := eq_long hv
      cases op with
      | not => rfl
      | negate => exact fitting_gives fun _ => basic_of_long?
    cases b with
    | integer => exact hint hv rfl
    | long => exact hlong hv rfl
    | boolean =>
      obtain ⟨x, rfl⟩ := eq_boolean hv
      cases op with
      | not => rfl
      | negate => cases h
    | double =>
      obtain ⟨x, rfl⟩ := eq_double hv
      cases op with
      | not => simp [UnaryOp.Takes, Ty.isBoolean, Ty.isIntegral] at h
      | negate => rfl
    | _ => cases op <;> simp [UnaryOp.Takes, Ty.isBoolean, Ty.isIntegral, Ty.isNumeric] at h
  | _ => cases op <;> simp [UnaryOp.Takes, Ty.isBoolean, Ty.isIntegral, Ty.isNumeric] at h

private theorem integerArithmetic_gives {op : BinaryOp} (a b : Int)
    (h : op = .add ∨ op = .subtract ∨ op = .multiply ∨ op = .intDivide ∨ op = .modulo) :
    Gives (integerArithmetic op a b) (fun _ => True) := by
  have hchecked : ∀ (fits : Bool) (n : Int),
      Gives (if fits then .ok n else .error (.overflow op.symbol)) (fun _ => True) := by
    intro fits n
    split <;> trivial
  rcases h with rfl | rfl | rfl | rfl | rfl
  · exact hchecked ..
  · exact hchecked ..
  · exact hchecked ..
  all_goals
    unfold integerArithmetic
    dsimp only
    split
    · trivial
    · exact hchecked ..

theorem logical_gives {op : BinaryOp} (hv : v.basic? = some b) (hw : w.basic? = some b)
    (hb : (Ty.basic b).isBoolean ∨ (Ty.basic b).isIntegral) :
    Gives (logical op v w) (·.basic? = some b) := by
  cases b with
  | boolean =>
    obtain ⟨x, rfl⟩ := eq_boolean hv
    obtain ⟨y, rfl⟩ := eq_boolean hw
    rfl
  | integer =>
    obtain ⟨x, rfl⟩ := eq_integer hv
    obtain ⟨y, rfl⟩ := eq_integer hw
    rfl
  | long =>
    obtain ⟨x, rfl⟩ := eq_long hv
    obtain ⟨y, rfl⟩ := eq_long hw
    rfl
  | _ => simp [Ty.isBoolean, Ty.isIntegral] at hb

theorem shift_gives {op : BinaryOp} {b' : Basic} (hv : v.basic? = some b)
    (hw : w.basic? = some b') (hb : (Ty.basic b).isIntegral) (hb' : (Ty.basic b').isIntegral) :
    Gives (shift op v w) (·.basic? = some b) := by
  have hordinal : (Ty.basic b').isOrdinal := by cases b' <;> first | rfl | cases hb'
  obtain ⟨n, hn⟩ := asOrdinal_of_basic hw hordinal
  unfold shift
  rw [hn]
  cases v <;> cases hv <;> first | rfl | cases hb

/-- Values of one basic type can be ordered. -/
theorem compare_gives (hv : v.basic? = some b) (hw : w.basic? = some b) :
    Gives (compare v w) (fun _ => True) := by
  cases v <;> cases hv <;> cases w <;> cases hw <;> trivial

end Value

namespace BinaryOp

/-- The type of the result of an operator on two operands of one type. -/
def result? (op : BinaryOp) (operand : Ty) : Option Ty :=
  let within (fits : Bool) (result : Ty) : Option Ty := if fits then some result else none
  match op with
  | add => within (operand == .string || operand.isNumeric) operand
  | subtract | multiply => within operand.isNumeric operand
  | divide => within (operand == .double) operand
  | intDivide | modulo => within operand.isIntegral operand
  | and | or | xor => within (operand.isBoolean || operand.isIntegral) operand
  | equal | notEqual => some .boolean
  | less | lessEqual | greater | greaterEqual => within operand.isBasic .boolean
  | shl | shr | member => none

theorem result?_of_operandTypes? {op : BinaryOp} {left right operand result : Ty}
    (h : Expr.operandTypes? op left right = some (operand, result)) :
    op.result? operand = some result := by
  have hwithin : ∀ {fits : Ty → Bool} {f : Ty → Ty × Ty},
      (do let ty ← left.common? right; if fits ty then some (f ty) else none) =
        some (operand, result) → ∃ ty, fits ty ∧ f ty = (operand, result) := by
    intro fits f h
    obtain ⟨ty, -, h⟩ := Option.bind_eq_some_iff.mp h
    split at h
    · next hf => exact ⟨ty, hf, Option.some.inj h⟩
    · cases h
  cases op <;> simp only [Expr.operandTypes?] at h
  case add =>
    split at h
    · cases h; rfl
    · obtain ⟨ty, hf, he⟩ := hwithin h
      cases he
      simp [result?, hf]
  all_goals first
    | cases h
    | obtain ⟨ty, hf, he⟩ := hwithin h
      cases he
      simp_all [result?]

/-- The types of the operands of an operator once they are converted, and the type of the result. -/
inductive Takes : BinaryOp → Ty → Ty → Ty → Prop where
  | shift {op : BinaryOp} {left right : Ty} (h : op = shl ∨ op = shr) (hleft : left.isIntegral)
      (hright : right.isIntegral) : Takes op left right left
  | member {left element : Ty} {bounds : Subrange} :
      Takes member left (.array element bounds) .boolean
  | common {op : BinaryOp} {operand result : Ty} (h : op.result? operand = some result) :
      Takes op operand operand result

end BinaryOp

namespace Value

variable {cells : List Ty} {v w : Value} {bounds : Bool}

private theorem ordered_gives {f : Option Ordering → Value} {b : Basic} (hv : v.basic? = some b)
    (hw : w.basic? = some b) (hf : ∀ o, (f o).basic? = some .boolean) :
    Gives (do return f (← compare v w)) (HasType cells .boolean) :=
  (compare_gives hv hw).bind fun o _ => hf o

private theorem integral_op {op : BinaryOp} {b : Basic} {t : Ty} (hb : (Ty.basic b).isIntegral)
    (h : op.result? (.basic b) = some t) (hop : op ≠ .and ∧ op ≠ .or ∧ op ≠ .xor)
    (hcompare : op ≠ .equal ∧ op ≠ .notEqual ∧ ¬op.isComparison) :
    (op = .add ∨ op = .subtract ∨ op = .multiply ∨ op = .intDivide ∨ op = .modulo) ∧
      t = .basic b := by
  cases op <;> cases b <;> cases hb <;> cases h <;> simp_all [BinaryOp.isComparison]

/-- Arithmetic on numbers, and `+` on strings. -/
private theorem arithmetic_gives {op : BinaryOp} {b : Basic} {t : Ty}
    (h : op.result? (.basic b) = some t) (hop : op ≠ .and ∧ op ≠ .or ∧ op ≠ .xor)
    (hcompare : op ≠ .equal ∧ op ≠ .notEqual ∧ ¬op.isComparison) (hv : v.basic? = some b)
    (hw : w.basic? = some b) : Gives (arithmetic op v w) (HasType cells t) := by
  have hint : ∀ {a c : Int} {f : Int → Option Value} {b' : Basic},
      (∀ n v, f n = some v → v.basic? = some b') → (Ty.basic b').isIntegral →
      op.result? (.basic b') = some t →
      Gives (do fitting op.symbol (f (← integerArithmetic op a c))) (HasType cells t) := by
    intro a c f b' hf hb ht
    obtain ⟨hops, rfl⟩ := integral_op hb ht hop hcompare
    exact (integerArithmetic_gives a c hops).bind fun n _ => fitting_gives fun v hv => hf n v hv
  cases b with
  | integer =>
    obtain ⟨x, rfl⟩ := eq_integer hv
    obtain ⟨y, rfl⟩ := eq_integer hw
    exact hint (fun n v => basic_of_integer?) rfl h
  | long =>
    obtain ⟨x, rfl⟩ := eq_long hv
    obtain ⟨y, rfl⟩ := eq_long hw
    exact hint (fun n v => basic_of_long?) rfl h
  | double =>
    obtain ⟨x, rfl⟩ := eq_double hv
    obtain ⟨y, rfl⟩ := eq_double hw
    cases op <;> cases h <;> simp_all [BinaryOp.isComparison]
    case divide.refl =>
      simp only [arithmetic]
      split <;> trivial
    all_goals rfl
  | string =>
    obtain ⟨x, rfl⟩ := eq_string hv
    obtain ⟨y, rfl⟩ := eq_string hw
    cases op <;> cases h <;> simp_all [BinaryOp.isComparison]
    rfl
  | _ => cases op <;> cases h <;> simp_all [BinaryOp.isComparison]

/-- An operator that takes two operands of one type. -/
private theorem binary_gives_common {op : BinaryOp} {t result : Ty}
    (h : op.result? t = some result) (hv : v.HasType cells (t.outline bounds))
    (hw : w.HasType cells (t.outline bounds)) :
    Gives (binary op v w) (HasType cells (result.outline bounds)) := by
  have hordered : ∀ {f : Option Ordering → Value}, (∀ o, (f o).basic? = some .boolean) →
      (if t.isBasic then some Ty.boolean else none) = some result →
      Gives (do return f (← compare v w)) (HasType cells (result.outline bounds)) := by
    intro f hf ht
    split at ht
    · cases ht
      cases t with
      | basic b => exact ordered_gives hv hw hf
      | _ => cases ‹Ty.isBasic _ = true›
    · cases ht
  have hbasic : op ≠ .equal ∧ op ≠ .notEqual ∧ ¬op.isComparison → ∃ b, t = .basic b := by
    intro hop
    cases t with
    | basic b => exact ⟨b, rfl⟩
    | _ => cases op <;> simp_all [BinaryOp.result?, BinaryOp.isComparison, Ty.isNumeric,
        Ty.isIntegral, Ty.isBoolean]
  have harithmetic : (op ≠ .and ∧ op ≠ .or ∧ op ≠ .xor) →
      (op ≠ .equal ∧ op ≠ .notEqual ∧ ¬op.isComparison) →
      Gives (arithmetic op v w) (HasType cells (result.outline bounds)) := by
    intro hop hcompare
    obtain ⟨b, rfl⟩ := hbasic hcompare
    have hresult : result.outline bounds = result := by
      cases op <;> cases b <;> cases h <;> rfl
    rw [hresult]
    exact arithmetic_gives h hop hcompare hv hw
  have hlogical : op = .and ∨ op = .or ∨ op = .xor →
      Gives (logical op v w) (HasType cells (result.outline bounds)) := by
    intro hop
    obtain ⟨b, rfl⟩ := hbasic (by rcases hop with rfl | rfl | rfl <;> simp [BinaryOp.isComparison])
    have hb : ((Ty.basic b).isBoolean ∨ (Ty.basic b).isIntegral) ∧ result = .basic b := by
      rcases hop with rfl | rfl | rfl <;> cases b <;> cases h <;>
        simp [Ty.isBoolean, Ty.isIntegral]
    rw [hb.2]
    exact logical_gives hv hw hb.1
  cases op with
  | equal | notEqual => cases h; rfl
  | less | lessEqual | greater | greaterEqual => exact hordered (fun _ => rfl) h
  | and | or | xor => exact hlogical (by simp)
  | shl | shr | member => cases h
  | add | subtract | multiply | divide | intDivide | modulo =>
    exact harithmetic (by simp) (by simp [BinaryOp.isComparison])

/-- An operator on operands of the types that it takes gives a value of the type of its result. -/
theorem binary_gives {op : BinaryOp} {left right result : Ty} (h : op.Takes left right result)
    (hv : v.HasType cells (left.outline bounds)) (hw : w.HasType cells (right.outline bounds)) :
    Gives (binary op v w) (HasType cells (result.outline bounds)) := by
  cases h with
  | shift hop hleft hright =>
    cases left with
    | basic b =>
      cases right with
      | basic b' => rcases hop with rfl | rfl <;> exact shift_gives hv hw hleft hright
      | _ => cases hright
    | _ => cases hleft
  | member =>
    obtain ⟨lower, items, rfl, -⟩ := hw
    rfl
  | common h => exact binary_gives_common h hv hw

theorem formatArgument_gives (n : Int) : Gives (formatArgument n) fun _ => True := by
  unfold formatArgument
  split <;> trivial

/-- A value with a column and decimal places, which are integers, is written as a string. -/
theorem format_gives (text : Value → String) {precision : Option Value}
    (hw : w.HasType cells .integer) (hp : ∀ p, precision = some p → p.HasType cells .integer) :
    Gives (format text v w precision) (HasType cells .string) := by
  obtain ⟨columns, rfl⟩ := eq_integer hw
  unfold format
  refine Gives.bind (P := fun _ => True) trivial fun n _ => ?_
  have hpadded : ∀ s, Gives (do return string (padLeft (← formatArgument n) s))
      (HasType cells .string) := fun s => (formatArgument_gives n).bind fun _ _ => rfl
  dsimp only
  split
  · next x p =>
    obtain ⟨places, rfl⟩ := eq_integer (hp p rfl)
    exact (formatArgument_gives places.toInt).bind fun _ _ => hpadded _
  · exact hpadded _

end Value

end Pascal
