import Mathlib.Algebra.Order.BigOperators.Group.Finset
import Mathlib.Data.Finset.Range
import Pascal.Library.Standard
import Pascal.Proofs.Signature.Exact

/-!
# Calls of the routines of the standard libraries

The standard libraries have many routines of one name, for values of different types and for different
numbers of arguments. No call of them is ambiguous: of two routines that can be called with the same
arguments, one costs less than the other one each time. Arguments are of infinitely many types, but a plain
parameter tells only a few kinds of them apart. So a look at one type of each kind decides what holds for all
arguments, however many there are of them.
-/

namespace Pascal

/-- The type that stands for all those that plain parameters do not tell from `t`. -/
def Ty.representative : Ty → Ty
  | basic b => basic b
  | array _ _ => openArray any
  | pointer _ | varargs _ | nil => nil
  | any => any
  | text => text

def Ty.representatives : List Ty :=
  Basic.all.map basic ++ [openArray any, nil, any, text]

theorem Ty.representative_mem (t : Ty) : t.representative ∈ representatives := by
  cases t with
  | basic b => cases b <;> simp [representatives, representative, Basic.all]
  | _ => simp [representatives, representative]

namespace Signature

variable {ty : Ty} {mode : ParamMode} {arg : Shape} {args : List Shape} {m n : Match}
  {params : List Parameter} {further : Option (Ty × ParamMode)} {s t : Signature}

/-- A parameter is plain if it does not look into pointers, and into arrays only to see that they are some. -/
def isPlain : Ty × ParamMode → Bool
  | (.basic _, _) | (.text, _) | (.any, _) => true
  | (.array .any r, mode) => r.isOpen && mode != .var
  | _ => false

/-- An array of any kind is bound to an open array of all types, and that costs nothing. -/
private theorem between?_openArray {r r' : Subrange} (e : Ty) (h : r'.isOpen = true) :
    Conversion.between? (.array e r) (.array .any r') = some .identity := by
  have hfits : r.fits r' = true := by simp [Subrange.fits, h]
  have hany : Conversion.between? e .any = some .identity ∨
      Conversion.between? e .any = some .toAny := by
    cases e <;> simp [Conversion.between?, Ty.isAny]
  rcases hany with hany | hany <;> simp [Conversion.between?, hfits, hany]

/-- A plain parameter binds an argument just as it binds one of the representative type. -/
theorem bind_representative (h : isPlain (ty, mode) = true) :
    bind ty mode ⟨arg.ty.representative, arg.assignable⟩ = bind ty mode arg := by
  obtain ⟨t, assignable⟩ := arg
  cases ty with
  | basic b => cases mode <;> cases t <;> rfl
  | text => cases mode <;> cases t <;> rfl
  | any => cases mode <;> cases t <;> rfl
  | array e r =>
    cases e with
    | any =>
      obtain ⟨hopen, hvalue⟩ := Bool.and_eq_true_iff.mp h
      cases t with
      | array e' r' =>
        cases mode with
        | var => cases hvalue
        | value | const =>
          simp only [bind, Ty.representative, Ty.openArray, between?_openArray _ hopen]
      | _ => cases mode <;> rfl
    | _ => cases h
  | _ => cases h

/-! ## What arguments cost, one by one -/

/-- The type and the mode of the parameter for the argument at an index. -/
def slot? (further : Option (Ty × ParamMode)) (params : List Parameter) (i : Nat) :
    Option (Ty × ParamMode) :=
  match params[i]? with
  | some p => some (p.ty, p.mode)
  | none => further

/-- What it costs to bind an argument to a parameter, if there is one that takes it. -/
def price? (slot : Option (Ty × ParamMode)) (arg : Shape) : Option Nat := do
  let (ty, mode) ← slot
  let (cost, _) ← bind ty mode arg
  return cost

theorem slot?_tail (i : Nat) : slot? further params.tail i = slot? further params (i + 1) := by
  cases params <;> rfl

/-- Behind the last parameter, all arguments go to the further one. -/
theorem slot?_min {k : Nat} (h : params.length ≤ k) (i : Nat) :
    slot? further params (min i k) = slot? further params i := by
  rcases Nat.le_total i k with hi | hi
  · rw [min_eq_left hi]
  · simp only [slot?, min_eq_right hi, List.getElem?_eq_none h, List.getElem?_eq_none (h.trans hi)]

/-- The first argument is bound to its parameter, and then the others to those behind it. -/
theorem bindAll_cons (params : List Parameter) (arg : Shape) (args : List Shape) :
    bindAll further params (arg :: args) =
      (slot? further params 0).bind fun slot => (bind slot.1 slot.2 arg).bind fun bound =>
        (bindAll further params.tail args).bind fun m =>
          some ⟨bound.1 + m.cost, bound.2 :: m.bindings⟩ := by
  cases params with
  | nil => cases further <;> rfl
  | cons p params => rfl

/-- There are enough arguments, and they are bound at the sum of their prices. -/
theorem bindAll_prices (h : bindAll further params args = some m) :
    params.length ≤ args.length ∧ ∃ price : Nat → Nat,
      m.cost = ∑ i ∈ Finset.range args.length, price i ∧
      ∀ (i : Nat) (hi : i < args.length), price? (slot? further params i) args[i] = some (price i) := by
  induction args generalizing params m with
  | nil =>
    cases params with
    | nil =>
      cases h
      exact ⟨le_rfl, fun _ => 0, rfl, fun i hi => absurd hi (by simp)⟩
    | cons p params => cases h
  | cons arg args ih =>
    rw [bindAll_cons] at h
    obtain ⟨slot, hslot, h⟩ := Option.bind_eq_some_iff.mp h
    obtain ⟨⟨c, b⟩, hbind, h⟩ := Option.bind_eq_some_iff.mp h
    obtain ⟨m', hm', ⟨⟩⟩ := Option.bind_eq_some_iff.mp h
    have hc : price? (slot? further params 0) arg = some c := by simp [price?, hslot, hbind]
    obtain ⟨hlength, price, hsum, hprice⟩ := ih hm'
    refine ⟨by simpa using hlength, fun i => Nat.casesOn i c price, ?_, fun i hi => ?_⟩
    · rw [List.length_cons, Finset.sum_range_succ', hsum]
      exact Nat.add_comm _ _
    · cases i with
      | zero => exact hc
      | succ i =>
        rw [← slot?_tail]
        exact hprice i (by simpa using hi)

/-! ## Comparing signatures -/

/-- A relation holds between what two parameters cost for each argument that both of them take. The
argument may be of any type, but one type of each kind is enough. -/
def compares (rel : Nat → Nat → Bool) (x y : Option (Ty × ParamMode)) : Bool :=
  Ty.representatives.all fun t => [true, false].all fun assignable =>
    match price? x ⟨t, assignable⟩, price? y ⟨t, assignable⟩ with
    | some c, some d => rel c d
    | _, _ => true

theorem price?_representative {slot : Option (Ty × ParamMode)} (h : ∀ x ∈ slot, isPlain x = true) :
    price? slot ⟨arg.ty.representative, arg.assignable⟩ = price? slot arg := by
  cases slot with
  | none => rfl
  | some x => simp only [price?, Option.bind_eq_bind, Option.bind_some, bind_representative (h x rfl)]

theorem rel_of_compares {rel : Nat → Nat → Bool} {x y : Option (Ty × ParamMode)} {c d : Nat}
    (h : compares rel x y = true) (hx : ∀ a ∈ x, isPlain a = true) (hy : ∀ a ∈ y, isPlain a = true)
    (hc : price? x arg = some c) (hd : price? y arg = some d) : rel c d = true := by
  have hkind := List.all_eq_true.mp h _ arg.ty.representative_mem
  have hkind := List.all_eq_true.mp hkind arg.assignable (by cases arg.assignable <;> simp)
  rwa [price?_representative hx, price?_representative hy, hc, hd] at hkind

/-- All parameters of a signature are plain. -/
def allPlain (s : Signature) : Bool :=
  (s.split.1.all fun p => isPlain (p.ty, p.mode)) && s.split.2.all isPlain

theorem isPlain_slot? (h : s.allPlain = true) (i : Nat) :
    ∀ x ∈ slot? s.split.2 s.split.1 i, isPlain x = true := by
  obtain ⟨hparams, hfurther⟩ := Bool.and_eq_true_iff.mp h
  intro x hx
  unfold slot? at hx
  split at hx
  · next p hp =>
    cases hx
    exact List.all_eq_true.mp hparams p (List.mem_of_getElem? hp)
  · rw [Option.mem_def.mp hx] at hfurther
    exact hfurther

/-- Calls of one signature cost less than calls of another one with the same arguments: no argument costs
more, one costs less, and the extra cost of any number of arguments is not the first one's alone. -/
def undercuts (s t : Signature) : Bool :=
  let n := max s.split.1.length t.split.1.length
  let compare (rel : Nat → Nat → Bool) (i : Nat) : Bool :=
    compares rel (slot? s.split.2 s.split.1 i) (slot? t.split.2 t.split.1 i)
  (List.range (n + 1)).all (compare fun c d => c ≤ d) &&
    (List.range n).any (compare fun c d => c < d) && (s.split.2.isSome → t.split.2.isSome)

theorem cost_lt_of_undercuts (h : s.undercuts t = true) (hs : s.allPlain = true)
    (ht : t.allPlain = true) (hm : s.match? args = some m) (hn : t.match? args = some n) :
    m.cost < n.cost := by
  simp only [undercuts, Bool.and_eq_true, List.all_eq_true, List.any_eq_true, List.mem_range,
    decide_eq_true_eq] at h
  obtain ⟨⟨hle, i, hi, hlt⟩, hfurther⟩ := h
  rw [match?_eq] at hm hn
  obtain ⟨m', hm', rfl⟩ := Option.map_eq_some_iff.mp hm
  obtain ⟨n', hn', rfl⟩ := Option.map_eq_some_iff.mp hn
  obtain ⟨hslength, price, hmsum, hprice⟩ := bindAll_prices hm'
  obtain ⟨htlength, price', hnsum, hprice'⟩ := bindAll_prices hn'
  have hlength : max s.split.1.length t.split.1.length ≤ args.length := max_le hslength htlength
  have hall : ∀ j ∈ Finset.range args.length, price j ≤ price' j := by
    intro j hj
    -- Behind the parameters of both, the first position stands for all others.
    have hj := Finset.mem_range.mp hj
    have hmore := hle (min j (max s.split.1.length t.split.1.length)) (Nat.lt_succ_of_le (min_le_right ..))
    rw [slot?_min (le_max_left ..), slot?_min (le_max_right ..)] at hmore
    exact of_decide_eq_true <|
      rel_of_compares hmore (isPlain_slot? hs j) (isPlain_slot? ht j) (hprice j hj) (hprice' j hj)
  have hone : price i < price' i := by
    have hi := hi.trans_le hlength
    exact of_decide_eq_true <|
      rel_of_compares hlt (isPlain_slot? hs i) (isPlain_slot? ht i) (hprice i hi) (hprice' i hi)
  have hsum := Finset.sum_lt_sum hall ⟨i, Finset.mem_range.mpr (hi.trans_le hlength), hone⟩
  rw [← hmsum, ← hnsum] at hsum
  -- The extra cost of any number of arguments falls on the second signature, on both or on none.
  by_cases hmany : s.split.2.isSome = true
  · simpa [hmany, hfurther hmany] using hsum
  · rw [if_neg hmany]
    split
    · exact hsum.trans (Nat.lt_succ_self _)
    · exact hsum

section

variable {α : Type} {candidates : List (α × Signature)}

/-- Where no two candidates cost the same, no call is ambiguous. -/
theorem choose_ne_ambiguous (h : candidates.Pairwise fun c d => ∀ m n,
    c.2.match? args = some m → d.2.match? args = some n → m.cost ≠ n.cost) :
    choose candidates args ≠ .error .ambiguous := by
  intro hambiguous
  obtain ⟨a, m, hlead⟩ := choose_eq_ambiguous_iff.mp hambiguous
  have hfound : (applicable candidates args).Pairwise fun x y => x.2.cost ≠ y.2.cost := by
    rw [applicable, List.pairwise_filterMap]
    apply h.imp
    rintro c d hne x hx y hy
    obtain ⟨m, hm, rfl⟩ := Option.map_eq_some_iff.mp hx
    obtain ⟨n, hn, rfl⟩ := Option.map_eq_some_iff.mp hy
    exact hne m n hm hn
  have htwo : 1 < (ofCost (applicable candidates args) m.cost).length := hlead.tied_iff.mp rfl
  have htied : (ofCost (applicable candidates args) m.cost).Pairwise fun x y => x.2.cost ≠ y.2.cost :=
    hfound.filter _
  have hcost := List.pairwise_iff_getElem.mp htied 0 1 (by omega) htwo Nat.zero_lt_one
  have hfirst := (mem_ofCost.mp (List.getElem_mem (Nat.zero_lt_of_lt htwo))).2
  have hsecond := (mem_ofCost.mp (List.getElem_mem htwo)).2
  exact hcost (hfirst.trans hsecond.symm)

end

end Signature

/-! ## The standard libraries -/

namespace Library

open Signature

/-- The routines of all standard libraries. -/
def standardRoutines : List Routine := standard.flatMap (·.routines)

/-- The routines of a name, in any letter case, that a call has to choose from. -/
def routinesNamed (name : String) : List (Routine × Signature) :=
  (standardRoutines.filter fun r => Text.sameName r.name name).map fun r => (r, r.signature)

theorem lower_name : ∀ r ∈ standardRoutines, Text.lower r.name = r.name := by decide +kernel

theorem allPlain_signature : ∀ r ∈ standardRoutines, r.signature.allPlain = true := by decide +kernel

/-- Of two routines with the same name, one undercuts the other one. -/
theorem undercuts_of_name : standardRoutines.Pairwise fun r t => r.name = t.name →
    r.signature.undercuts t.signature = true ∨ t.signature.undercuts r.signature = true := by
  decide +kernel

/-- Two routines of one name never bind the same arguments at the same cost. -/
theorem pairwise_routinesNamed (name : String) (args : List Shape) :
    (routinesNamed name).Pairwise fun c d => ∀ m n,
      c.2.match? args = some m → d.2.match? args = some n → m.cost ≠ n.cost := by
  rw [routinesNamed, List.pairwise_map]
  have hnamed := List.Pairwise.and_mem.mp (undercuts_of_name.filter fun r => Text.sameName r.name name)
  apply hnamed.imp
  rintro r t ⟨hr, ht, hundercuts⟩ m n hm hn
  obtain ⟨hr, hrname⟩ := List.mem_filter.mp hr
  obtain ⟨ht, htname⟩ := List.mem_filter.mp ht
  have hname : r.name = t.name := by
    rw [← lower_name r hr, ← lower_name t ht]
    exact (beq_iff_eq.mp hrname).trans (beq_iff_eq.mp htname).symm
  rcases hundercuts hname with h | h
  · exact (cost_lt_of_undercuts h (allPlain_signature r hr) (allPlain_signature t ht) hm hn).ne
  · exact (cost_lt_of_undercuts h (allPlain_signature t ht) (allPlain_signature r hr) hn hm).ne'

/-- No call of a routine of the standard libraries is ambiguous. Where some routine of the name applies, one
of them is chosen, and each other way to bind the arguments costs more. -/
theorem standard_unambiguous (name : String) (args : List Shape) :
    choose (routinesNamed name) args ≠ .error .ambiguous ∧
      ((∃ r m, Applies (routinesNamed name) args r m) → ∃ r m,
        choose (routinesNamed name) args = .ok (r, m) ∧ Applies (routinesNamed name) args r m ∧
        ∀ t n, Applies (routinesNamed name) args t n → (t, n) ≠ (r, m) → m.cost < n.cost) := by
  have hne := choose_ne_ambiguous (pairwise_routinesNamed name args)
  refine ⟨hne, ?_⟩
  rintro ⟨t, n, happlies⟩
  rcases choose_cases (routinesNamed name) args with ⟨r, m, hc, hlead⟩ | ⟨_, _, hc, -⟩ | ⟨-, hnone⟩
  · refine ⟨r, m, hc, mem_applicable.mp hlead.mem, fun t n ht hother => ?_⟩
    apply (hlead.least _ (mem_applicable.mpr ht)).lt_of_ne
    intro hcost
    exact hother (hlead.eq_of_cost (mem_applicable.mpr ht) hcost.symm)
  · exact absurd hc hne
  · have hmem := mem_applicable.mpr happlies
    rw [hnone] at hmem
    exact absurd hmem (by simp)

/-- All three routines for the larger number take a character and an integer, and one of them is chosen. -/
theorem standard_unambiguous_max :
    let args : List Shape := [⟨.char, false⟩, ⟨.integer, false⟩]
    (applicable (routinesNamed "Max") args).length = 3 ∧
      ∃ r m, choose (routinesNamed "Max") args = .ok (r, m) := by
  intro args
  have hthree : (applicable (routinesNamed "Max") args).length = 3 := by decide +kernel
  have hpos : 0 < (applicable (routinesNamed "Max") args).length := by omega
  obtain ⟨⟨t, n⟩, happlies⟩ := List.exists_mem_of_length_pos hpos
  obtain ⟨r, m, hc, -⟩ := (standard_unambiguous "Max" args).2 ⟨t, n, mem_applicable.mp happlies⟩
  exact ⟨hthree, r, m, hc⟩

end Library

end Pascal
