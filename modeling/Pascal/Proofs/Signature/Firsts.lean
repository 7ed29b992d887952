import Mathlib.Data.List.Forall2
import Pascal.Proofs.Signature.Exact

/-!
# Signatures with the same parameters

To have the same parameters is a relation both ways, and every signature has the same ones as itself. But it
does not pass on: an open array is like arrays with different ranges. Signatures are numbered one after the
other, each with the number of the first one before it that has the same parameters. Here is what these numbers
say about the relation.
-/

namespace Pascal

namespace Ty

theorem agrees_comm (t u : Ty) : t.agrees u = u.agrees t := by
  induction t generalizing u with
  | array e r ih =>
    cases u with
    | array e' r' =>
      have hrange : r.agrees r' = r'.agrees r := by
        rw [Subrange.agrees, Subrange.agrees, Bool.or_comm r.isOpen, BEq.comm (a := r.lower),
          BEq.comm (a := r.size)]
      rw [agrees, agrees, ih, hrange]
    | _ => rfl
  | pointer t ih =>
    cases u with
    | pointer u => exact ih u
    | _ => rfl
  | varargs e ih =>
    cases u with
    | varargs e' => exact ih e'
    | _ => rfl
  | basic b =>
    cases u with
    | basic b' => exact BEq.comm
    | _ => rfl
  | any | text | nil => cases u <;> rfl

end Ty

namespace Signature

variable {s t : Signature} {known ss : List Signature}

theorem sameParameters_iff : s.sameParameters t ↔
    List.Forall₂ (fun p q : Parameter => p.mode = q.mode ∧ p.ty.agrees q.ty) s.params t.params := by
  simp [sameParameters, List.forall₂_iff_zip]

theorem sameParameters_self (s : Signature) : s.sameParameters s :=
  sameParameters_iff.mpr (List.forall₂_same.mpr fun p _ => ⟨rfl, p.ty.agrees_self⟩)

theorem sameParameters_symm (h : s.sameParameters t) : t.sameParameters s := by
  refine sameParameters_iff.mpr ((sameParameters_iff.mp h).flip.imp fun p q hpq => ?_)
  exact ⟨hpq.1.symm, (Ty.agrees_comm _ _).trans hpq.2⟩

/-- The known signatures with one more, if this is new. -/
def learn (known : List Signature) (s : Signature) : List Signature :=
  if known.any (·.sameParameters s) then known else known ++ [s]

/-- The signatures that are new among some, behind those that are known. -/
def firsts (known ss : List Signature) : List Signature := ss.foldl learn known

/-- The number of a signature among known ones. -/
def number (known : List Signature) (s : Signature) : Nat := known.findIdx (·.sameParameters s)

theorem prefix_learn (known : List Signature) (s : Signature) : known <+: learn known s := by
  unfold learn
  split
  · exact List.prefix_rfl
  · exact List.prefix_append ..

theorem prefix_firsts (known ss : List Signature) : known <+: firsts known ss := by
  induction ss generalizing known with
  | nil => exact List.prefix_rfl
  | cons s ss ih => exact (prefix_learn known s).trans (ih _)

theorem mem_learn (h : t ∈ learn known s) : t ∈ known ∨ t = s := by
  unfold learn at h
  split at h
  · exact .inl h
  · simpa using h

theorem mem_firsts (h : t ∈ firsts known ss) : t ∈ known ∨ t ∈ ss := by
  induction ss generalizing known with
  | nil => exact .inl h
  | cons s ss ih =>
    rcases ih h with h | h
    · rcases mem_learn h with h | rfl
      · exact .inl h
      · exact .inr List.mem_cons_self
    · exact .inr (List.mem_cons_of_mem _ h)

theorem number_lt : number known s < known.length ↔ ∃ t ∈ known, t.sameParameters s := List.findIdx_lt_length

theorem sameParameters_number (h : number known s < known.length) :
    known[number known s].sameParameters s := by
  have hfound := List.findIdx_of_getElem?_eq_some (List.getElem?_eq_getElem h)
  exact hfound

/-- A number that has been given stays. -/
theorem number_firsts (h : number known s < known.length) : number (firsts known ss) s = number known s :=
  (prefix_firsts known ss).findIdx_eq_of_findIdx_lt_length h

/-- A signature that is not known goes behind all others. -/
theorem learn_of_le (h : known.length ≤ number known s) : learn known s = known ++ [s] := by
  have hnone := mt number_lt.mpr (Nat.not_lt.mpr h)
  rw [learn, if_neg (by simpa using hnone)]

theorem learn_of_lt (h : number known s < known.length) : learn known s = known := by
  rw [learn, if_pos (List.any_eq_true.mpr (number_lt.mp h))]

theorem number_learn (known : List Signature) (s : Signature) : number (learn known s) s = number known s := by
  rcases Nat.lt_or_ge (number known s) known.length with h | h
  · rw [learn_of_lt h]
  · rw [learn_of_le h, number, List.findIdx_append, ← number, if_neg (Nat.not_lt.mpr h)]
    have hlength : number known s = known.length := le_antisymm List.findIdx_le_length h
    simp [s.sameParameters_self, hlength]

theorem number_learn_lt (known : List Signature) (s : Signature) :
    number (learn known s) s < (learn known s).length := by
  rcases Nat.lt_or_ge (number known s) known.length with h | h
  · rwa [learn_of_lt h]
  · rw [number_learn, learn_of_le h, List.length_append, List.length_singleton]
    exact Nat.lt_succ_of_le List.findIdx_le_length

/-- Every signature has a number in the end. -/
theorem number_lt_firsts (h : s ∈ ss) : number (firsts known ss) s < (firsts known ss).length := by
  induction ss generalizing known with
  | nil => cases h
  | cons t ss ih =>
    rcases List.mem_cons.mp h with rfl | h
    · have hlearnt := number_learn_lt known s
      rw [firsts, List.foldl_cons, ← firsts, number_firsts hlearnt]
      exact hlearnt.trans_le (prefix_firsts _ _).length_le
    · exact ih h

/-- The first one of all has the number of those with its parameters. -/
theorem number_first : number (firsts [] (s :: ss)) t = number (firsts [] (s :: ss)) s ↔
    s.sameParameters t := by
  obtain ⟨rest, hrest⟩ := prefix_firsts [s] ss
  have hfirsts : firsts [] (s :: ss) = s :: rest := hrest.symm
  have hs : number (s :: rest) s = 0 := by simp [number, List.findIdx_cons, s.sameParameters_self]
  rw [hfirsts, hs, number, List.findIdx_cons]
  cases s.sameParameters t <;> simp

/-- Where the relation passes on, a number stands for those that have the same parameters. -/
theorem number_eq_iff (htrans : ∀ x ∈ ss, ∀ y ∈ ss, ∀ z ∈ ss,
      x.sameParameters y → y.sameParameters z → x.sameParameters z) (hs : s ∈ ss) (ht : t ∈ ss) :
    number (firsts [] ss) s = number (firsts [] ss) t ↔ s.sameParameters t := by
  have hmem : ∀ x ∈ firsts [] ss, x ∈ ss := fun x hx => (mem_firsts hx).resolve_left List.not_mem_nil
  constructor
  · intro hnumber
    have hlt : number (firsts [] ss) s < (firsts [] ss).length := number_lt_firsts hs
    have hx : (firsts [] ss)[number (firsts [] ss) s] ∈ ss := hmem _ (List.getElem_mem hlt)
    have hxs := sameParameters_number hlt
    have hxt := sameParameters_number (hnumber ▸ hlt : number (firsts [] ss) t < (firsts [] ss).length)
    simp only [← hnumber] at hxt
    exact htrans s hs _ hx t ht (sameParameters_symm hxs) hxt
  · intro hst
    refine le_antisymm (List.findIdx_le_findIdx fun x hx h => ?_) (List.findIdx_le_findIdx fun x hx h => ?_)
    · exact htrans x (hmem x hx) t ht s hs h (sameParameters_symm hst)
    · exact htrans x (hmem x hx) s hs t ht h hst

end Signature

end Pascal
