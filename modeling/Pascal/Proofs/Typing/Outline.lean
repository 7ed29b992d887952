import Mathlib.Order.Nat
import Pascal.Typing.Call

/-!
# Types up to the bounds of arrays

Types that agree differ at most in the bounds of their arrays. Where bounds count as well, this needs
that no pointer leads to an array without declared bounds.
-/

namespace Pascal

/-- What a typing asks for beyond the kinds of values. -/
structure Discipline where
  /-- Declared bounds count. -/
  bounds : Bool := false
  /-- Items of array constructors may be ranges, as long as bounds do not count. -/
  ranges : Bool := true

/-- Whether there may be ranges. -/
def Discipline.takesRanges (d : Discipline) : Bool := d.ranges && !d.bounds

theorem Discipline.not_bounds {d : Discipline} (h : d.takesRanges) : d.bounds = false := by
  simpa using (Bool.and_eq_true_iff.mp h).2

namespace Subrange

theorem fits_closed {r r' : Subrange} (h : r.fits r') (h' : r'.isOpen = false) : r = r' := by
  simp only [fits, agrees, h', Bool.false_or, Bool.and_eq_true, Bool.not_eq_true', Bool.or_eq_true,
    beq_iff_eq] at h
  obtain ⟨hopen, hopen' | h⟩ := h
  · simp [hopen] at hopen'
  · exact Subrange.ext h.1 h.2

theorem agrees_closed {r r' : Subrange} (h : r.agrees r') (hr : r.isOpen = false)
    (hr' : r'.isOpen = false) : r = r' := by
  cases r
  cases r'
  simp_all [agrees]

end Subrange

namespace Ty

/-- The type, with the bounds of its arrays left open unless they count. -/
def outline (bounds : Bool) : Ty → Ty
  | array element r => array (element.outline bounds) (if bounds then r else .unbounded)
  | pointer target => pointer (target.outline bounds)
  | varargs element => varargs (element.outline bounds)
  | t => t

@[simp] theorem outline_true (t : Ty) : t.outline true = t := by
  induction t <;> simp_all [outline]

/-- Whether all arrays in a type have declared bounds. -/
def isClosed : Ty → Bool
  | array element r => !r.isOpen && element.isClosed
  | pointer target => target.isClosed
  | varargs element => element.isClosed
  | _ => true

/-- Whether all pointers in a type lead to arrays with declared bounds only. -/
def pointsClosed : Ty → Bool
  | array element _ => element.pointsClosed
  | pointer target => target.isClosed
  | varargs element => element.pointsClosed
  | _ => true

/-- Whether a type stands for values only. -/
def isGround : Ty → Bool
  | array element _ => element.isGround
  | pointer target => target.isGround
  | varargs _ => false
  | _ => true

/-- Whether a type is one that programs can write down. -/
def isWritten : Ty → Bool
  | basic _ | text => true
  | array element _ => element.isWritten
  | pointer target => target.isWritten
  | varargs _ | any | nil => false

theorem isGround_of_isWritten {t : Ty} (h : t.isWritten) : t.isGround := by
  induction t <;> simp_all [isWritten, isGround]

@[simp] theorem isWritten_outline (bounds : Bool) (t : Ty) :
    (t.outline bounds).isWritten = t.isWritten := by
  induction t <;> simp_all [outline, isWritten]

theorem pointsClosed_of_isClosed {t : Ty} (h : t.isClosed) : t.pointsClosed := by
  induction t <;> simp_all [isClosed, pointsClosed]

/-- The types that a discipline allows. -/
structure Tame (d : Discipline) (t : Ty) : Prop where
  ground : t.isGround
  points : d.bounds → t.pointsClosed

namespace Tame

variable {d : Discipline}

theorem basic (b : Basic) : Tame d (basic b) := ⟨rfl, fun _ => rfl⟩

theorem any : Tame d any := ⟨rfl, fun _ => rfl⟩

theorem nil : Tame d nil := ⟨rfl, fun _ => rfl⟩

theorem array {element : Ty} {r : Subrange} : Tame d (array element r) ↔ Tame d element :=
  ⟨fun h => ⟨h.ground, h.points⟩, fun h => ⟨h.ground, h.points⟩⟩

theorem target {t : Ty} (h : Tame d (pointer t)) : Tame d t :=
  ⟨h.ground, fun hb => pointsClosed_of_isClosed (h.points hb)⟩

end Tame

/-- Types that agree have the same outline, up to bounds or where all bounds are declared. -/
theorem agrees_outline {t t' : Ty} {bounds : Bool} (h : t.agrees t')
    (hc : bounds → t.isClosed ∧ t'.isClosed) : t.outline bounds = t'.outline bounds := by
  induction t generalizing t' with
  | array element r ih =>
    cases t' with
    | array element' r' =>
      simp only [agrees, Bool.and_eq_true] at h
      cases bounds with
      | false => simp [outline, ih h.1 (by simp)]
      | true =>
        simp only [isClosed, Bool.and_eq_true, Bool.not_eq_true', forall_const] at hc
        obtain ⟨⟨hr, he⟩, hr', he'⟩ := hc
        simp [outline, Subrange.agrees_closed h.2 hr hr']
        simpa using ih h.1 fun _ => ⟨he, he'⟩
    | _ => simp [agrees] at h
  | pointer target ih =>
    cases t' with
    | pointer target' => simpa [outline] using ih h hc
    | _ => simp [agrees] at h
  | varargs element ih =>
    cases t' with
    | varargs element' => simpa [outline] using ih h hc
    | _ => simp [agrees] at h
  | _ => cases t' <;> simp_all [agrees]

theorem pointer_agrees {d : Discipline} {t t' : Ty} (h : t.agrees t') (ht : Tame d (pointer t))
    (ht' : Tame d (pointer t')) : t.outline d.bounds = t'.outline d.bounds :=
  agrees_outline h fun hb => ⟨ht.points hb, ht'.points hb⟩

/-- One type can be seen as another one if the other one only leaves bounds of arrays open. -/
inductive Opens : Ty → Ty → Prop where
  | refl (t : Ty) : Opens t t
  | array {element element' : Ty} {r r' : Subrange} (h : Opens element element')
      (hr : r'.isOpen ∨ r = r') : Opens (array element r) (array element' r')

theorem Opens.eq {t t' : Ty} (h : t.Opens t') (hc : t'.isClosed) : t = t' := by
  induction h with
  | refl => rfl
  | array _ hr ih =>
    simp only [isClosed, Bool.and_eq_true, Bool.not_eq_true'] at hc
    rw [ih hc.2, hr.resolve_left (by simp [hc.1])]

theorem Opens.trans {t t' t'' : Ty} (h : t.Opens t') (h' : t'.Opens t'') : t.Opens t'' := by
  induction h' generalizing t with
  | refl => exact h
  | array he hr ih =>
    cases h with
    | refl => exact .array he hr
    | array he' hr' =>
      refine .array (ih he') ?_
      rcases hr with hr | rfl
      · exact .inl hr
      · exact hr'

/-- How the type of a variable may differ from the type that a parameter gives to it. -/
def Seen (bounds : Bool) (t t' : Ty) : Prop := if bounds then t.Opens t' else t = t'

theorem Seen.refl (bounds : Bool) (t : Ty) : t.Seen bounds t := by
  cases bounds
  · rfl
  · exact Opens.refl t

theorem Seen.opens {bounds : Bool} {t t' : Ty} (h : t.Seen bounds t') : t.Opens t' := by
  cases bounds
  · exact (show t = t' from h) ▸ Opens.refl t
  · exact h

theorem Seen.trans {bounds : Bool} {t t' t'' : Ty} (h : t.Seen bounds t')
    (h' : t'.Seen bounds t'') : t.Seen bounds t'' := by
  cases bounds with
  | false => exact Eq.trans (show t = t' from h) h'
  | true => exact Opens.trans h h'

/-- Storage that fits a parameter can be seen as what the parameter asks for. -/
theorem Seen.of_fits {d : Discipline} {t t' : Ty} (h : t.fits t') (ht : Tame d t)
    (ht' : Tame d t') : (t.outline d.bounds).Seen d.bounds (t'.outline d.bounds) := by
  have hagrees : ∀ {t t' : Ty}, t.agrees t' → (d.bounds → t.isClosed ∧ t'.isClosed) →
      (t.outline d.bounds).Seen d.bounds (t'.outline d.bounds) := fun h hc => by
    rw [agrees_outline h hc]; exact .refl _ _
  induction t generalizing t' with
  | array element r ih =>
    cases t' with
    | array element' r' =>
      simp only [fits, Bool.and_eq_true] at h
      have ih := ih h.2 (Tame.array.mp ht) (Tame.array.mp ht')
      cases hb : d.bounds with
      | false =>
        simp only [hb] at ih
        have ih : element.outline false = element'.outline false := ih
        simp [outline, Seen, ih]
      | true =>
        simp only [hb, outline_true] at ih ⊢
        refine Opens.array ih ?_
        cases hr' : r'.isOpen with
        | true => exact .inl rfl
        | false => exact .inr (Subrange.fits_closed h.1 hr')
    | _ => simp [fits, agrees] at h
  | pointer target =>
    cases t' with
    | pointer target' => exact hagrees h fun hb => ⟨ht.points hb, ht'.points hb⟩
    | _ => simp [fits, agrees] at h
  | varargs element =>
    cases t' with
    | varargs element' =>
      refine hagrees h fun hb => ?_
      cases ht.ground
    | _ => simp [fits, agrees] at h
  | _ => cases t' <;> simp_all [fits, agrees, outline, Seen.refl]

end Ty

end Pascal
