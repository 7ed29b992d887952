import Mathlib.Data.List.Forall2
import Pascal.Proofs.Value.Ordinal

/-!
# Conversions one after the other

Between types that are built from basic types and arrays conversions compose: where a type converts to a
second one and this to a third, the first converts to the third, at the sum of the costs and with the same
values. They always succeed, and two types that convert to each other are the same.
-/

namespace Pascal

namespace Subrange

variable {r s t : Subrange}

theorem fits_trans (h : r.fits s) (h' : s.fits t) : r.fits t := by
  cases ht : t.isOpen with
  | true => simp [fits, ht]
  | false => exact fits_closed h' ht ▸ h

/-- Ranges that fit each other are the same, or both of them are open. -/
theorem fits_antisymm (h : r.fits s) (h' : s.fits r) : r = s ∨ r.isOpen ∧ s.isOpen := by
  cases hs : s.isOpen with
  | false => exact .inl (fits_closed h hs)
  | true =>
    cases hr : r.isOpen with
    | false => exact .inl (fits_closed h' hr).symm
    | true => exact .inr ⟨rfl, rfl⟩

theorem Admits.of_fits {lower : Int64} {length : Nat} (h : r.Admits lower length) (hr : r.fits s) :
    s.Admits lower length := by
  intro hs
  obtain rfl := fits_closed hr hs
  exact h hs

end Subrange

namespace Ty

/-- Whether a type is built from basic types and arrays. -/
def isData : Ty → Bool
  | basic _ => true
  | array element _ => element.isData
  | _ => false

/-- The same basic types, and on each level of arrays the same bounds or none. -/
def Same : Ty → Ty → Prop
  | basic a, basic b => a = b
  | array e r, array e' r' => (r = r' ∨ r.isOpen ∧ r'.isOpen) ∧ e.Same e'
  | _, _ => False

end Ty

/-- A value of a numeric type that stands for an integer: it has the integer as its number, or it is the
real number that integers of this value become. -/
def Value.OfInt (b : Basic) (n : Int) (v : Value) : Prop :=
  v.Numbered b n ∨ b = .double ∧ v = .double (Float.ofInt n)

theorem Value.OfInt.unique {b : Basic} {n : Int} {v w : Value} (hv : v.OfInt b n) (hw : w.OfInt b n) :
    v = w := by
  rcases hv with hv | ⟨rfl, rfl⟩
  · rcases hw with hw | ⟨rfl, rfl⟩
    · exact hv.unique hw
    · exact hv.holds.elim
  · rcases hw with hw | ⟨-, rfl⟩
    · exact hw.holds.elim
    · rfl

namespace Conversion

variable {a b c : Basic} {n : Int} {v w x : Value} {f g k inner : Conversion} {cells : List Ty}

/-! ## Basic types -/

/-- Values of one type widen to those of another one. -/
def Widens (a b : Basic) : Prop := ∃ i j, a.rank? = some i ∧ b.rank? = some j ∧ i < j

/-- A basic type converts to itself, a character to a string, and a type to those it widens to. -/
theorem ofBasic?_eq_some : ofBasic? a b = some f ↔ a = b ∧ f = identity ∨
    a = .char ∧ b = .string ∧ f = charToString ∨ Widens a b ∧ f = widen a b := by
  unfold Widens
  cases a <;> cases b <;> simp [ofBasic?, Basic.rank?, eq_comm]

theorem Widens.trans (h : Widens a b) (h' : Widens b c) : Widens a c := by
  obtain ⟨i, j, hi, hj, hlt⟩ := h
  obtain ⟨j', l, hj', hl, hlt'⟩ := h'
  cases hj.symm.trans hj'
  exact ⟨i, l, hi, hl, hlt.trans hlt'⟩

theorem Widens.cost (h : Widens a b) (h' : Widens b c) :
    (widen a c).cost = (widen a b).cost + (widen b c).cost := by
  obtain ⟨i, j, hi, hj, hlt⟩ := h
  obtain ⟨j', l, hj', hl, hlt'⟩ := h'
  cases hj.symm.trans hj'
  simp only [Conversion.cost, hi, hj, hl]
  omega

/-- Widening keeps the number of a value, up to the last step from integers to real numbers. -/
theorem Widens.apply (h : Widens a b) (hv : v.Numbered a n) :
    ∃ w, (widen a b).apply v = .ok w ∧ w.OfInt b n := by
  obtain ⟨i, j, hi, hj, hlt⟩ := h
  have hn := hv.holds
  cases b with
  | boolean | string => cases hj
  | char => cases hj; cases hlt
  | integer =>
    obtain rfl : a = .char := by cases a <;> cases hi <;> cases hj <;> first | rfl | omega
    obtain ⟨x, rfl⟩ := Value.eq_char hv.kind
    cases hv.number
    refine ⟨_, rfl, .inl ⟨rfl, congrArg Except.ok (Int32.toInt_ofNat_of_lt ?_)⟩⟩
    simp only [Basic.Holds] at hn
    omega
  | long =>
    have hwiden : (widen a .long).apply v = .ok (.long (Int64.ofInt n)) := by
      rw [apply, widened, hv.number]
      rfl
    exact ⟨_, hwiden, .inl ⟨rfl, congrArg Except.ok (Value.toInt_ofInt_of_asOrdinal hv.number)⟩⟩
  | double =>
    refine ⟨_, ?_, .inr ⟨rfl, rfl⟩⟩
    obtain ⟨hkind, hnumber⟩ := hv
    cases v <;> cases hnumber <;> cases hkind <;> first | rfl | cases hi

theorem Widens.numbered (h : Widens a b) (hv : v.basic? = some a) : ∃ n, v.Numbered a n := by
  obtain ⟨i, j, hi, hj, hlt⟩ := h
  have ha : (Ty.basic a).isOrdinal := by
    cases a <;> cases b <;> cases hi <;> cases hj <;> first | rfl | omega
  obtain ⟨n, hn⟩ := Value.asOrdinal_of_basic hv ha
  exact ⟨n, hv, hn⟩

/-- Only a real number widens to nothing else. -/
theorem Widens.numbered_of_ofInt (h : Widens a b) (hv : v.OfInt a n) : v.Numbered a n := by
  obtain ⟨i, j, hi, hj, hlt⟩ := h
  refine hv.resolve_right ?_
  rintro ⟨rfl, -⟩
  cases b <;> cases hi <;> cases hj <;> omega

theorem ofBasic?_apply (h : ofBasic? a b = some f) (hv : v.basic? = some a) :
    ∃ w, f.apply v = .ok w ∧ w.basic? = some b := by
  cases a <;> cases b <;> cases h <;> cases v <;> cases hv <;> exact ⟨_, rfl, rfl⟩

theorem ofBasic?_comp (hf : ofBasic? a b = some f) (hg : ofBasic? b c = some g) :
    ∃ k, ofBasic? a c = some k ∧ k.cost = f.cost + g.cost ∧ ∀ v w x, v.basic? = some a →
      f.apply v = .ok w → g.apply w = .ok x → k.apply v = .ok x := by
  rcases ofBasic?_eq_some.mp hf with ⟨rfl, rfl⟩ | ⟨rfl, rfl, rfl⟩ | ⟨hab, rfl⟩
  · refine ⟨g, hg, (Nat.zero_add _).symm, ?_⟩
    rintro v w x - ⟨⟩ hx
    exact hx
  · rcases ofBasic?_eq_some.mp hg with ⟨rfl, rfl⟩ | ⟨h, -⟩ | ⟨⟨i, j, hi, -⟩, -⟩
    · refine ⟨charToString, hf, rfl, ?_⟩
      rintro v w x - hw ⟨⟩
      exact hw
    · cases h
    · cases hi
  · rcases ofBasic?_eq_some.mp hg with ⟨rfl, rfl⟩ | ⟨rfl, -⟩ | ⟨hbc, rfl⟩
    · refine ⟨widen a b, hf, rfl, ?_⟩
      rintro v w x - hw ⟨⟩
      exact hw
    · obtain ⟨i, j, hi, hj, hlt⟩ := hab
      cases hj
      cases hlt
    · refine ⟨widen a c, ofBasic?_eq_some.mpr (.inr (.inr ⟨hab.trans hbc, rfl⟩)), hab.cost hbc, ?_⟩
      intro v w x hv hw hx
      obtain ⟨n, hn⟩ := hab.numbered hv
      obtain ⟨w', hw', hwn⟩ := hab.apply hn
      cases hw.symm.trans hw'
      obtain ⟨x', hx', hxn⟩ := hbc.apply (hbc.numbered_of_ofInt hwn)
      cases hx.symm.trans hx'
      obtain ⟨y, hy, hyn⟩ := (hab.trans hbc).apply hn
      rw [hy, hyn.unique hxn]

theorem ofBasic?_antisymm (hf : ofBasic? a b = some f) (hg : ofBasic? b a = some g) : a = b := by
  rcases ofBasic?_eq_some.mp hf with ⟨h, -⟩ | ⟨rfl, rfl, -⟩ | ⟨⟨i, j, hi, hj, hlt⟩, -⟩
  · exact h
  · cases hg
  · rcases ofBasic?_eq_some.mp hg with ⟨h, -⟩ | ⟨rfl, rfl, -⟩ | ⟨⟨j', i', hj', hi', hlt'⟩, -⟩
    · exact h.symm
    · cases hi
    · cases hi.symm.trans hi'
      cases hj.symm.trans hj'
      omega

/-! ## Lists of elements -/

section

variable {α β γ : Type} {xs : List α} {ys : List β} {zs : List γ}

theorem exists_forall₂ {R : α → β → Prop} (h : ∀ x ∈ xs, ∃ y, R x y) : ∃ ys, List.Forall₂ R xs ys := by
  induction xs with
  | nil => exact ⟨[], .nil⟩
  | cons x xs ih =>
    obtain ⟨y, hy⟩ := h x List.mem_cons_self
    obtain ⟨ys, hys⟩ := ih fun x hx => h x (List.mem_cons_of_mem _ hx)
    exact ⟨y :: ys, .cons hy hys⟩

theorem forall₂_trans {P : α → Prop} {R : α → β → Prop} {S : β → γ → Prop} {T : α → γ → Prop}
    (h : ∀ x y z, P x → R x y → S y z → T x z) (hxs : ∀ x ∈ xs, P x) (hR : List.Forall₂ R xs ys)
    (hS : List.Forall₂ S ys zs) : List.Forall₂ T xs zs := by
  induction hR generalizing zs with
  | nil => cases hS; exact .nil
  | cons hxy _ ih =>
    obtain ⟨hx, hxs⟩ := List.forall_mem_cons.mp hxs
    cases hS with
    | cons hyz hS => exact .cons (h _ _ _ hx hxy hyz) (ih hxs hS)

end

/-! ## Arrays -/

variable {t u s : Ty}

/-- The conversion of arrays whose elements are converted. -/
def lift : Conversion → Conversion
  | identity | toAny => identity
  | inner => elements inner

/-- Only basic types convert to a basic type. -/
theorem exists_of_between?_basic (h : between? t (.basic b) = some f) :
    ∃ a, t = .basic a ∧ ofBasic? a b = some f := by
  cases t with
  | basic a => exact ⟨a, rfl, h⟩
  | _ => cases h

/-- Only arrays convert to an array, where the bounds fit and the elements convert. -/
theorem exists_of_between?_array {e' : Ty} {r' : Subrange} (h : between? t (.array e' r') = some f) :
    ∃ e r inner, t = .array e r ∧ r.fits r' ∧ between? e e' = some inner ∧ f = inner.lift := by
  cases t with
  | array e r =>
    rw [between?] at h
    split at h
    · next hr =>
      refine ⟨e, r, ?_⟩
      cases hinner : between? e e' with
      | none => rw [hinner] at h; cases h
      | some inner =>
        refine ⟨inner, rfl, hr, rfl, ?_⟩
        rw [hinner] at h
        cases inner <;> cases h <;> rfl
    · cases h
  | _ => cases h

theorem between?_lift {e e' : Ty} {r r' : Subrange} (hr : r.fits r')
    (h : between? e e' = some inner) : between? (.array e r) (.array e' r') = some inner.lift := by
  rw [between?, if_pos hr, h]
  cases inner <;> rfl

theorem between?_ne_toAny (hu : u.isData) : between? t u ≠ some toAny := by
  intro h
  cases u with
  | basic b =>
    obtain ⟨a, rfl, h⟩ := exists_of_between?_basic h
    rcases ofBasic?_eq_some.mp h with ⟨-, h⟩ | ⟨-, -, h⟩ | ⟨-, h⟩ <;> cases h
  | array e' r' =>
    obtain ⟨e, r, inner, rfl, -, -, h⟩ := exists_of_between?_array h
    cases inner <;> cases h
  | _ => cases hu

theorem cost_lift (h : inner ≠ toAny) : inner.lift.cost = inner.cost := by
  cases inner <;> first | rfl | exact absurd rfl h

/-- An array is converted element by element, also where its elements stay as they are. -/
theorem apply_lift {lower : Int64} {items : List Value} :
    inner.lift.apply (.array lower items) = .ok w ↔
      ∃ ys, w = .array lower ys ∧ List.Forall₂ (fun x y => inner.apply x = .ok y) items ys := by
  have hmap : inner.lift.apply (.array lower items) =
      (do return .array lower (← items.mapM inner.apply)) := by
    have hid : ∀ xs : List Value, xs.mapM Except.ok = (Except.ok xs : Except Fault _) := fun xs =>
      mapM_eq_ok.mpr (List.forall₂_same.mpr fun _ _ => rfl)
    cases inner with
    | identity | toAny => exact (congrArg (· >>= fun ys => Except.ok (Value.array lower ys)) (hid items)).symm
    | _ => rfl
  rw [hmap, bind_eq_ok]
  constructor
  · rintro ⟨ys, hys, ⟨⟩⟩
    exact ⟨ys, rfl, mapM_eq_ok.mp hys⟩
  · rintro ⟨ys, rfl, hys⟩
    exact ⟨ys, mapM_eq_ok.mpr hys, rfl⟩

/-- What converts to a type built from basic types and arrays is built so itself. -/
theorem isData_of_between? (hu : u.isData) (h : between? t u = some f) : t.isData := by
  induction u generalizing t f with
  | basic b =>
    obtain ⟨a, rfl, -⟩ := exists_of_between?_basic h
    rfl
  | array e' r' ih =>
    obtain ⟨e, r, inner, rfl, -, hinner, -⟩ := exists_of_between?_array h
    have he : e.isData := ih hu hinner
    exact he
  | _ => cases hu

/-- A conversion succeeds on every value of its type, and gives one of the other type. -/
theorem between?_apply (hu : u.isData) (h : between? t u = some f) (hv : v.HasType cells t) :
    ∃ w, f.apply v = .ok w ∧ w.HasType cells u := by
  induction u generalizing t f v with
  | basic b =>
    obtain ⟨a, rfl, h⟩ := exists_of_between?_basic h
    exact ofBasic?_apply h hv
  | array e' r' ih =>
    obtain ⟨e, r, inner, rfl, hr, hinner, rfl⟩ := exists_of_between?_array h
    obtain ⟨lower, items, rfl, hadmits, hitems⟩ := hv
    obtain ⟨ys, hys⟩ := exists_forall₂ fun item hi => ih hu hinner (hitems item hi)
    refine ⟨.array lower ys, apply_lift.mpr ⟨ys, rfl, hys.imp fun _ _ h => h.1⟩, lower, ys, rfl, ?_, ?_⟩
    · rw [← hys.length_eq]
      exact hadmits.of_fits hr
    · have hboth : List.Forall₂ (fun y item => y.HasType cells e' ∧ inner.apply item = .ok y) ys items :=
        (hys.imp fun _ _ h => h.symm).flip
      exact ((List.forall₂_and_left ys items).mp hboth).1
  | _ => cases hu

/-- A conversion behind another one gives what one conversion gives, and they cost as much as it does. -/
theorem between?_comp (cells : List Ty) (hs : s.isData) (hf : between? t u = some f) (hg : between? u s = some g) :
    ∃ k, between? t s = some k ∧ k.cost = f.cost + g.cost ∧ ∀ v w x, v.HasType cells t →
      f.apply v = .ok w → g.apply w = .ok x → k.apply v = .ok x := by
  induction s generalizing t u f g with
  | basic c =>
    obtain ⟨b, rfl, hg⟩ := exists_of_between?_basic hg
    obtain ⟨a, rfl, hf⟩ := exists_of_between?_basic hf
    exact ofBasic?_comp hf hg
  | array e'' r'' ih =>
    obtain ⟨e', r', inner', rfl, hr', hinner', rfl⟩ := exists_of_between?_array hg
    obtain ⟨e, r, inner, rfl, hr, hinner, rfl⟩ := exists_of_between?_array hf
    obtain ⟨k, hk, hcost, happly⟩ := ih hs hinner hinner'
    refine ⟨k.lift, between?_lift (Subrange.fits_trans hr hr') hk, ?_, ?_⟩
    · have hne {t u : Ty} {i : Conversion} (hu : u.isData) (h : between? t u = some i) : i ≠ toAny :=
        fun hi => between?_ne_toAny hu (hi ▸ h)
      have hs : e''.isData := hs
      have he' := isData_of_between? hs hinner'
      rw [cost_lift (hne hs hk), cost_lift (hne he' hinner), cost_lift (hne hs hinner'), hcost]
    · rintro v w x ⟨lower, items, rfl, -, hitems⟩ hw hx
      obtain ⟨ys, rfl, hys⟩ := apply_lift.mp hw
      obtain ⟨zs, rfl, hzs⟩ := apply_lift.mp hx
      exact apply_lift.mpr ⟨zs, rfl, forall₂_trans happly hitems hys hzs⟩
  | _ => cases hs

/-- Types that convert to each other are the same. -/
theorem same_of_between? (hu : u.isData) (hf : between? t u = some f) (hg : between? u t = some g) :
    t.Same u := by
  induction u generalizing t f g with
  | basic b =>
    obtain ⟨a, rfl, hf⟩ := exists_of_between?_basic hf
    obtain ⟨_, ⟨⟩, hg⟩ := exists_of_between?_basic hg
    exact ofBasic?_antisymm hf hg
  | array e' r' ih =>
    obtain ⟨e, r, inner, rfl, hr, hinner, rfl⟩ := exists_of_between?_array hf
    obtain ⟨_, _, inner', ⟨⟩, hr', hinner', rfl⟩ := exists_of_between?_array hg
    exact ⟨Subrange.fits_antisymm hr hr', ih hu hinner hinner'⟩
  | _ => cases hu

/-- **Implicit conversions compose.** Of types that are built from basic types and arrays, where one
converts to a second one and this to a third, the first converts to the third, at the sum of the costs, and
gives every value of the first type what the two conversions give it one after the other. Such a conversion
succeeds on every value of its type and gives one of the other type. Types that convert to each other are
the same. It is enough that the last type is built so, since then the types that convert to it are. -/
theorem conversions_compose (cells : List Ty) :
    (∀ t u s f g, s.isData → between? t u = some f → between? u s = some g →
      ∃ k, between? t s = some k ∧ k.cost = f.cost + g.cost ∧
        ∀ v : Value, v.HasType cells t →
          ∃ w x, f.apply v = .ok w ∧ g.apply w = .ok x ∧ k.apply v = .ok x) ∧
    (∀ t u f, u.isData → between? t u = some f →
      ∀ v : Value, v.HasType cells t → ∃ w, f.apply v = .ok w ∧ w.HasType cells u) ∧
    ∀ t u, u.isData → (between? t u).isSome → (between? u t).isSome → t.Same u := by
  refine ⟨fun t u s f g hs hf hg => ?_, fun t u f hu hf v hv => between?_apply hu hf hv, ?_⟩
  · obtain ⟨k, hk, hcost, happly⟩ := between?_comp cells hs hf hg
    refine ⟨k, hk, hcost, fun v hv => ?_⟩
    obtain ⟨w, hw, hwtype⟩ := between?_apply (isData_of_between? hs hg) hf hv
    obtain ⟨x, hx, -⟩ := between?_apply hs hg hwtype
    exact ⟨w, x, hw, hx, happly v w x hv hw hx⟩
  · intro t u hu hf hg
    obtain ⟨f, hf⟩ := Option.isSome_iff_exists.mp hf
    obtain ⟨g, hg⟩ := Option.isSome_iff_exists.mp hg
    exact same_of_between? hu hf hg

/-- Two letters become integers and these real numbers, at the cost of the way from letters to real numbers,
while their array keeps its bounds. -/
theorem conversions_compose_letters :
    let t : Ty := .array .char { lower := 1, size := 2 }
    let u : Ty := .openArray .integer
    let s : Ty := .openArray .double
    let v : Value := .array 1 [.char 'a', .char 'b']
    let x : Value := .array 1 [.double (Float.ofInt 97), .double (Float.ofInt 98)]
    ∃ f g k w, between? t u = some f ∧ between? u s = some g ∧ between? t s = some k ∧
      k.cost = f.cost + g.cost ∧ f.apply v = .ok w ∧ w.HasType [] u ∧ g.apply w = .ok x ∧
      k.apply v = .ok x ∧ t.Same t := by
  intro t u s v x
  obtain ⟨hcomp, happly, hsame⟩ := conversions_compose []
  have hv : v.HasType [] t := ⟨1, _, rfl, fun _ => ⟨rfl, rfl⟩, by simp [Value.HasType, Value.basic?]⟩
  obtain ⟨k, hk, hcost, hall⟩ := hcomp t u s _ _ rfl rfl rfl
  obtain ⟨w, y, hw, hy, hky⟩ := hall v hv
  obtain ⟨w', hw', htype⟩ := happly t u _ rfl rfl v hv
  cases hw.symm.trans hw'
  have hx : k.apply v = .ok x := by
    cases hk
    rfl
  cases hky.symm.trans hx
  exact ⟨_, _, k, w, rfl, rfl, hk, hcost, hw, htype, hy, hx, hsame t t rfl rfl rfl⟩

end Conversion

end Pascal
