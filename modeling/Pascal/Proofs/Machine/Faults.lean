import Pascal.Machine.Exec

/-!
# Faults that only a run itself finds

No operation on values, storage or files fails as if the run had been cancelled, as if too many routines
were active, or as if the frames of the run did not fit its code. Such faults come from checks, from
calls and from the frames alone.
-/

namespace Pascal

namespace Fault

/-- Frames do not fit the code: a variable has no frame or no slot, a function has no place for its
result, or a routine has no body. -/
def isScoping : Fault → Bool
  | internal what => what == "variable missing from its frame" || what == "variable has no storage" ||
      what == "function frame has no result" || what == "routine has no body"
  | _ => false

/-- A fault that only a run itself finds. -/
def isOwn : Fault → Bool
  | cancelled => true
  | f => f.isScoping

@[simp] theorem isOwn_eq_false {f : Fault} : f.isOwn = false ↔ f ≠ cancelled ∧ ∀ what,
    f = internal what → what ≠ "variable missing from its frame" ∧
      what ≠ "variable has no storage" ∧ what ≠ "function frame has no result" ∧
      what ≠ "routine has no body" := by
  cases f <;> simp [isOwn, isScoping, and_assoc]

/-- Too many routines are active. -/
def isOverflow : Fault → Bool
  | stackOverflow _ => true
  | _ => false

/-- A fault that no operation on values, storage or files finds. -/
def isReserved (f : Fault) : Bool := f.isOwn || f.isOverflow

@[simp] theorem isReserved_eq_false {f : Fault} : f.isReserved = false ↔ (f ≠ cancelled ∧ ∀ what,
    f = internal what → what ≠ "variable missing from its frame" ∧
      what ≠ "variable has no storage" ∧ what ≠ "function frame has no result" ∧
      what ≠ "routine has no body") ∧ ∀ depth, f ≠ stackOverflow depth := by
  rw [isReserved, Bool.or_eq_false_iff, isOwn_eq_false]
  refine and_congr_right fun _ => ?_
  cases f <;> simp [isOverflow]

theorem not_isOwn {f : Fault} (h : f.isReserved = false) : f.isOwn = false :=
  (Bool.or_eq_false_iff.mp h).1

theorem not_isOverflow {f : Fault} (h : f.isReserved = false) : f.isOverflow = false :=
  (Bool.or_eq_false_iff.mp h).2

theorem ne_cancelled {f : Fault} (h : f.isReserved = false) : f ≠ cancelled := by
  rintro rfl
  cases h

/-- A fault that comes from outside: from the console, from files or from what they hold. -/
def isForeign : Fault → Bool
  | fileNotOpen _ | fileNotFound _ | inputExhausted | invalidInput _ _ | io _ => true
  | _ => false

theorem isReserved_of_isForeign {f : Fault} (h : f.isForeign) : f.isReserved = false := by
  cases f <;> first | rfl | cases h

theorem not_isScoping {f : Fault} (h : f.isOwn = false) : f.isScoping = false := by
  unfold isOwn at h
  split at h
  · cases h
  · exact h

end Fault

/-- All faults that a computation finds have a property. -/
def Fails {α : Type} (P : Fault → Prop) (r : Except Fault α) : Prop := ∀ f, r = .error f → P f

namespace Fails

variable {α β : Type} {P Q : Fault → Prop} {r : Except Fault α} {f : α → Except Fault β}

@[simp] theorem ok (a : α) : Fails P (.ok a : Except Fault α) := by simp [Fails]

@[simp] theorem error_iff {e : Fault} : Fails P (.error e : Except Fault α) ↔ P e := by
  simp [Fails]

@[simp] theorem pure (a : α) : Fails P (Pure.pure a : Except Fault α) := ok a

theorem mono (hr : Fails P r) (h : ∀ f, P f → Q f) : Fails Q r := fun f hf => h f (hr f hf)

theorem bind (hr : Fails P r) (hf : ∀ a, Fails P (f a)) : Fails P (r >>= f) := by
  cases r with
  | ok a => exact hf a
  | error e => exact error_iff.mpr (error_iff.mp hr)

theorem mapM {g : α → Except Fault β} (hg : ∀ a, Fails P (g a)) (xs : List α) :
    Fails P (xs.mapM g) := by
  induction xs with
  | nil => exact ok _
  | cons x xs ih =>
    rw [List.mapM_cons]
    exact (hg x).bind fun _ => ih.bind fun _ => ok _

end Fails

/-- A computation that finds no fault which only a run itself finds. -/
abbrev Heedless {α : Type} (r : Except Fault α) : Prop := Fails (fun f => f.isReserved = false) r

theorem Fails.ne_cancelled {α : Type} {r : Except Fault α} (h : Heedless r) :
    r ≠ .error .cancelled := by
  rintro rfl
  cases h .cancelled rfl

namespace Value

@[simp] theorem isReserved_mismatch (v : Value) (expected : String) :
    (v.mismatch expected).isReserved = false := by
  simp [mismatch]

theorem heedless_asBool (v : Value) : Heedless v.asBool := by cases v <;> simp [asBool]

theorem heedless_asOrdinal (v : Value) : Heedless v.asOrdinal := by cases v <;> simp [asOrdinal]

theorem heedless_asReal (v : Value) : Heedless v.asReal := by cases v <;> simp [asReal]

theorem heedless_asString (v : Value) : Heedless v.asString := by cases v <;> simp [asString]

theorem heedless_asChar (v : Value) : Heedless v.asChar := by cases v <;> simp [asChar]

theorem heedless_asText (v : Value) : Heedless v.asText := by cases v <;> simp [asText]

theorem heedless_orOverflow (v : Option Value) : Heedless (orOverflow v) := by
  cases v <;> simp [orOverflow]

theorem heedless_fitting (operation : String) (v : Option Value) :
    Heedless (fitting operation v) := by
  cases v <;> simp [fitting]

theorem heedless_withOrdinal (v : Value) (n : Int) : Heedless (v.withOrdinal n) := by
  cases v <;> simp [withOrdinal, heedless_orOverflow]

theorem heedless_unary (op : UnaryOp) (v : Value) : Heedless (unary op v) := by
  cases op <;> cases v <;> simp [unary, heedless_fitting]

theorem heedless_integerArithmetic (op : BinaryOp) (a b : Int) :
    Heedless (integerArithmetic op a b) := by
  unfold integerArithmetic
  dsimp only
  repeat' split
  all_goals simp

theorem heedless_arithmetic (op : BinaryOp) (left right : Value) :
    Heedless (left.arithmetic op right) := by
  unfold arithmetic
  repeat' split
  all_goals first
    | exact (heedless_integerArithmetic op _ _).bind fun _ => heedless_fitting _ _
    | simp

theorem heedless_logical (op : BinaryOp) (left right : Value) : Heedless (left.logical op right) := by
  unfold logical
  split <;> simp

theorem heedless_shift (op : BinaryOp) (left right : Value) : Heedless (left.shift op right) := by
  refine (heedless_asOrdinal right).bind fun amount => ?_
  cases left <;> simp [mismatch]

theorem heedless_compare (left right : Value) : Heedless (left.compare right) := by
  unfold compare
  split <;> simp

theorem heedless_binary (op : BinaryOp) (left right : Value) : Heedless (binary op left right) := by
  have hcompare := heedless_compare left right
  cases op with
  | equal | notEqual => exact .ok _
  | less | lessEqual | greater | greaterEqual => exact hcompare.bind fun _ => .ok _
  | member => cases right <;> simp [binary]
  | and | or | xor =>
    rw [binary]
    exact heedless_logical _ left right
  | shl | shr =>
    rw [binary]
    exact heedless_shift _ left right
  | _ =>
    rw [binary]
    exact heedless_arithmetic _ left right

theorem heedless_ordinalsFrom (v : Value) (n : Int) (before : List Value) (count : Nat) :
    Heedless (v.ordinalsFrom n before count) := by
  induction count generalizing n before with
  | zero => exact .ok _
  | succ count ih => exact (heedless_withOrdinal v n).bind fun _ => ih _ _

theorem heedless_expandRange (low high : Value) : Heedless (expandRange low high) :=
  (heedless_asOrdinal low).bind fun _ => (heedless_asOrdinal high).bind fun _ =>
    heedless_ordinalsFrom _ _ _ _

theorem heedless_formatArgument (n : Int) : Heedless (formatArgument n) := by
  unfold formatArgument
  split <;> simp

theorem heedless_format (show_ : Value → String) (v width : Value) (precision : Option Value) :
    Heedless (format show_ v width precision) := by
  refine (heedless_asOrdinal width).bind fun columns => ?_
  have hpadded : ∀ s, Heedless (do return string (padLeft (← formatArgument columns) s)) :=
    fun s => (heedless_formatArgument columns).bind fun _ => .ok _
  dsimp only
  split
  · exact (heedless_asOrdinal _).bind fun n => (heedless_formatArgument n).bind fun _ => hpadded _
  · exact hpadded _

theorem heedless_offset (lower : Int64) (length : Nat) (index : Int) :
    Heedless (offset lower length index) := by
  unfold offset
  dsimp only
  split
  · simp
  · split <;> simp

theorem heedless_itemAt (items : List Value) (i : Nat) : Heedless (itemAt items i) := by
  unfold itemAt
  split <;> simp

theorem heedless_elementAt (v : Value) (index : Int) : Heedless (v.elementAt index) := by
  unfold elementAt
  split
  · exact (heedless_offset _ _ index).bind fun i => heedless_itemAt _ i
  · simp

theorem heedless_charOf (v : Value) (index : Int) : Heedless (v.charOf index) := by
  refine (heedless_asString v).bind fun s => (heedless_offset _ _ index).bind fun i => ?_
  split <;> simp

theorem heedless_follow (v : Value) (path : List Step) : Heedless (v.follow path) := by
  induction path generalizing v with
  | nil => exact .ok v
  | cons step path ih =>
    cases step with
    | element index => exact (heedless_elementAt v index).bind fun item => ih item
    | charAt index => exact (heedless_charOf v index).bind fun _ => .ok _

theorem heedless_revise {f : Value → Except Fault Value} (hf : ∀ v, Heedless (f v)) (v : Value)
    (path : List Step) : Heedless (v.revise f path) := by
  induction path generalizing v with
  | nil => exact hf v
  | cons step path ih =>
    cases step with
    | element index =>
      unfold revise
      split
      · exact (heedless_offset _ _ index).bind fun i => (heedless_itemAt _ i).bind fun item =>
          (ih item).bind fun _ => .ok _
      · simp
    | charAt index =>
      unfold revise
      split
      · refine (heedless_charOf v index).bind fun old => (hf _).bind fun new => ?_
        exact (heedless_asChar new).bind fun _ => (heedless_asString v).bind fun _ =>
          (heedless_offset _ _ index).bind fun _ => .ok _
      · simp

end Value

theorem Conversion.heedless_apply (c : Conversion) (v : Value) : Heedless (c.apply v) := by
  induction c generalizing v with
  | identity | nilToPointer | toAny => exact .ok v
  | widen source target =>
    unfold apply widened
    split
    · exact .ok _
    · exact v.heedless_asOrdinal.bind fun _ => .ok _
    · exact .ok _
    · exact v.heedless_asReal.bind fun _ => .ok _
    · exact .ok _
  | charToString => exact v.heedless_asChar.bind fun _ => .ok _
  | elements inner ih =>
    unfold apply
    split
    · exact (Fails.mapM ih _).bind fun _ => .ok _
    · simp

namespace Store

theorem heedless_get (s : Store) (r : Ref) : Heedless (s.get r) := by
  unfold get
  split
  · exact Value.heedless_follow _ _
  · simp

theorem heedless_revised (s : Store) (r : Ref) {f : Value → Except Fault Value}
    (hf : ∀ v, Heedless (f v)) : Heedless (s.revised r f) := by
  unfold revised
  split
  · exact Value.heedless_revise hf _ _
  · simp

end Store

theorem Env.variableRef_shallow (env : Env) {chain : Chain} {v : VarRef} {f : Fault}
    (h : env.variableRef chain v = .error f) : f.isOverflow = false := by
  unfold variableRef at h
  split at h <;> split at h <;> cases h <;> rfl

theorem Env.variableRef_ne_cancelled (env : Env) (chain : Chain) (v : VarRef) :
    env.variableRef chain v ≠ .error .cancelled := by
  unfold variableRef
  split <;> split <;> simp

end Pascal
