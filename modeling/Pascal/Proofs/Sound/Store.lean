import Pascal.Proofs.Machine.References
import Pascal.Proofs.Typing.Operator

/-!
# Typed storage

Each cell of a store has a type, and references lead to parts of cells. What is read there is of the type
that the reference leads to, and what is written there keeps all types.
-/

namespace Pascal

variable {cells : List Ty}

namespace Value

variable {v : Value} {t u : Ty} {path : List Step}

theorem offset_gives (lower : Int64) (length : Nat) (index : Int) :
    Gives (offset lower length index) fun k => offset lower length index = .ok k := by
  cases h : offset lower length index with
  | ok k => rfl
  | error f =>
    unfold offset at h
    dsimp only at h
    split at h
    · cases h
      trivial
    · split at h <;> cases h
      rfl

theorem itemAt_gives {items : List Value} {P : Value → Prop} (h : ∀ item ∈ items, P item) (i : Nat) :
    Gives (itemAt items i) P := by
  unfold itemAt
  split
  · next hitem => exact h _ (List.mem_of_getElem? hitem)
  · trivial

theorem elementAt_gives {lower : Int64} {items : List Value} {index : Int} {P : Value → Prop}
    (h : ∀ item ∈ items, P item) : Gives ((array lower items).elementAt index) P :=
  (offset_gives lower items.length index).bind fun i _ => itemAt_gives h i

/-- Characters are counted from one, so that no offset goes round. -/
theorem lt_of_offset_one {length k : Nat} {index : Int} (h : offset 1 length index = .ok k) :
    k < length := by
  have hk := eq_of_offset h
  unfold offset at h
  dsimp only at h
  split at h
  · cases h
  · next hbounds =>
    have hlast : (1 + Int64.ofNat length - 1).toInt = (length : Int).bmod Int64.size := by
      rw [Int64.add_comm, Int64.add_sub_cancel, Int64.toInt_ofNat']
    rw [hlast, Int.bmod_def, Int64.size, Int64.toInt_one] at hbounds
    rw [Int64.toInt_one] at hk
    omega

theorem charOf_gives (s : String) (index : Int) : Gives ((string s).charOf index) fun _ => True := by
  refine (offset_gives 1 s.toList.length index).bind fun i hi => ?_
  rw [List.getElem?_eq_getElem (lt_of_offset_one hi)]
  trivial

/-- The part of a value at the end of a path has the type of that part. -/
theorem HasType.follow (h : v.HasType cells t) (hp : t.at? path = some u) :
    Gives (v.follow path) (HasType cells u) := by
  induction path generalizing v t with
  | nil =>
    cases hp
    exact h
  | cons step path ih =>
    cases step with
    | element index =>
      cases t with
      | array element r =>
        obtain ⟨lower, items, rfl, -, hitems⟩ := h
        exact (elementAt_gives hitems).bind fun item hitem => ih hitem hp
      | _ => cases hp
    | charAt index =>
      simp only [Ty.at?] at hp
      split at hp
      · next hs =>
        cases hp
        obtain ⟨s, rfl⟩ := eq_string (hs.1 ▸ h)
        exact (charOf_gives s index).bind fun _ _ => rfl
      · cases hp

/-- A value keeps its type when a part of it is replaced by another one of the same type. -/
theorem HasType.revise {f : Value → Except Fault Value} (h : v.HasType cells t)
    (hp : t.at? path = some u)
    (hf : ∀ old, old.HasType cells u → Gives (f old) (HasType cells u)) :
    Gives (v.revise f path) (HasType cells t) := by
  induction path generalizing v t with
  | nil =>
    cases hp
    exact hf v h
  | cons step path ih =>
    cases step with
    | element index =>
      cases t with
      | array element r =>
        obtain ⟨lower, items, rfl, hr, hitems⟩ := h
        refine (offset_gives lower items.length index).bind fun i _ => ?_
        refine (itemAt_gives hitems i).bind fun item hitem => ?_
        refine (ih hitem hp).bind fun new hnew => ?_
        refine ⟨lower, items.set i new, rfl, by simpa using hr, fun item hitem => ?_⟩
        rcases List.mem_or_eq_of_mem_set hitem with hold | rfl
        · exact hitems item hold
        · exact hnew
      | _ => cases hp
    | charAt index =>
      simp only [Ty.at?] at hp
      split at hp
      · next hs =>
        obtain ⟨rfl, rfl⟩ := hs
        cases hp
        obtain ⟨s, rfl⟩ := eq_string h
        refine (charOf_gives s index).bind fun old _ => ?_
        refine (hf (char old) rfl).bind fun new hnew => ?_
        obtain ⟨c, rfl⟩ := eq_char hnew
        exact (offset_gives 1 s.toList.length index).bind fun _ _ => rfl
      · cases hp

end Value

namespace Ref

variable {r : Ref} {t : Ty}

theorem HasType.mono {cells' : List Ty} (h : r.HasType cells t) (hc : cells <+: cells') :
    r.HasType cells' t := by
  obtain ⟨root, hroot, hpath⟩ := h
  exact ⟨root, Value.getElem?_of_prefix hc hroot, hpath⟩

/-- An element of an array has the element type. -/
theorem HasType.element {range : Subrange} (h : r.HasType cells (.array t range)) (index : Int) :
    (r.element index).HasType cells t := by
  obtain ⟨root, hroot, hpath⟩ := h
  exact ⟨root, hroot, Ty.at?_append hpath (by simp) _⟩

theorem HasType.charAt (h : r.HasType cells .string) (index : Int) :
    (r.charAt index).HasType cells .char := by
  obtain ⟨root, hroot, hpath⟩ := h
  exact ⟨root, hroot, Ty.at?_append hpath (by simp [Ty.string, Ty.char]) _⟩

end Ref

namespace Store

/-- All cells hold values of their types. -/
structure Typed (cells : List Ty) (s : Store) : Prop where
  size : s.cells.size = cells.length
  cell : ∀ (i : Nat) t, cells[i]? = some t → ∃ v : Value, s.cells[i]? = some (some v) ∧ v.HasType cells t

namespace Typed

variable {s : Store} {r : Ref} {t : Ty} {v : Value}

theorem empty : Typed [] {} := ⟨rfl, fun _ _ h => by simp at h⟩

/-- What is read at a reference has the type that the reference leads to. -/
theorem get (h : s.Typed cells) (hr : r.HasType cells t) :
    Gives (s.get r) (Value.HasType cells t) := by
  obtain ⟨root, hroot, hpath⟩ := hr
  obtain ⟨v, hv, htype⟩ := h.cell r.cell root hroot
  unfold Store.get
  rw [hv]
  exact htype.follow hpath

/-- A cell may be given another value of its type. -/
theorem put (h : s.Typed cells) {i : Nat} (hi : cells[i]? = some t) (hv : v.HasType cells t) :
    (s.put i v).Typed cells where
  size := by simpa [Store.put] using h.size
  cell j u hj := by
    obtain ⟨w, hw, htype⟩ := h.cell j u hj
    have hlt : j < s.cells.size := (Array.getElem?_eq_some_iff.mp hw).1
    unfold Store.put
    by_cases hij : i = j
    · subst hij
      cases hi.symm.trans hj
      exact ⟨v, by simp [hlt], hv⟩
    · exact ⟨w, by simpa [hij] using hw, htype⟩

/-- Replacing the value at a reference by one of the same type keeps all types. -/
theorem revised (h : s.Typed cells) (hr : r.HasType cells t) {f : Value → Except Fault Value}
    (hf : ∀ old, old.HasType cells t → Gives (f old) (Value.HasType cells t)) :
    Gives (s.revised r f) fun v => (s.put r.cell v).Typed cells := by
  obtain ⟨root, hroot, hpath⟩ := hr
  obtain ⟨v, hv, htype⟩ := h.cell r.cell root hroot
  unfold Store.revised
  rw [hv]
  exact (htype.revise hpath hf).mono fun _ hnew => h.put hroot hnew

/-- A new cell gets the type of the value that it holds. -/
theorem alloc (h : s.Typed cells) (hv : v.HasType cells t) :
    (s.alloc v).2.Typed (cells ++ [t]) ∧ (s.alloc v).1.HasType (cells ++ [t]) t := by
  have hcells : cells <+: cells ++ [t] := List.prefix_append cells [t]
  refine ⟨⟨by simp [Store.alloc, h.size], fun i u hi => ?_⟩, t, ?_, rfl⟩
  · rw [List.getElem?_append] at hi
    split at hi
    · next hlt =>
      obtain ⟨w, hw, htype⟩ := h.cell i u hi
      refine ⟨w, ?_, htype.mono hcells⟩
      rw [Store.alloc, Array.getElem?_push, if_neg (by rw [h.size]; omega)]
      exact hw
    · next hge =>
      have hlast : i = cells.length := by
        have hlt := (List.getElem?_eq_some_iff.mp hi).1
        simp only [List.length_singleton] at hlt
        omega
      subst hlast
      obtain rfl : t = u := by simpa using hi
      exact ⟨v, by simp [Store.alloc, ← h.size], hv.mono hcells⟩
  · simp [Store.alloc, h.size]

end Typed

end Store

end Pascal
