import Mathlib.Data.List.Perm.Basic
import Pascal.Proofs.Scope.Nested
import Pascal.Proofs.Signature.Firsts

/-!
# Headings of one name

Headings of one name are declared in a scope one after the other, without bodies. Each denotes the first routine
that has its parameters, or it makes a new one. Main statement: the order of the headings says which of them
denote one routine, unless having the same parameters passes on among them.
-/

namespace Pascal

/-- A heading of a routine. -/
structure Heading where
  name : String
  signature : Signature
  pos : Position
deriving DecidableEq

namespace Arena

open Signature

variable {a a' : Arena} {s first : Nat} {key name : String} {result : Option Ty} {known : List Signature}
  {sig : Signature} {p : Position} {hds hds' : List Heading} {h h' : Heading}

/-- Declares headings in a scope, and gives the routine that each of them denotes. What is refused is passed
over. -/
def declareHeadings (a : Arena) (s : Nat) : List Heading → List (Heading × Nat)
  | [] => []
  | h :: hds =>
    match a.declareFunction s h.name h.signature h.pos with
    | .ok (id, a') => (h, id) :: a'.declareHeadings s hds
    | .error _ => a.declareHeadings s hds

/-- Two headings of a list denote one routine. -/
def Together (a : Arena) (s : Nat) (hds : List Heading) (h h' : Heading) : Prop :=
  ∃ id, (h, id) ∈ a.declareHeadings s hds ∧ (h', id) ∈ a.declareHeadings s hds

/-- The headings that take further arguments only at their end. Others are refused. -/
def acceptable (hds : List Heading) : List Heading := hds.filter fun h => (misplaced? h.signature).isNone

/-- The routines of a name in a scope are numbered from `first` on by the signatures that are known. They have
one type of results and no bodies. -/
structure Numbers (a : Arena) (s : Nat) (key : String) (result : Option Ty) (first : Nat)
    (known : List Signature) : Prop where
  scope : s < a.scopes.size
  fresh : known = [] → (a.scope s).find? key = none
  declared : known ≠ [] →
    ∃ p, (a.scope s).find? key = some ⟨key, p, .routines (List.range' first known.length)⟩
  size : a.functions.size = first + known.length
  function : ∀ i sig, known[i]? = some sig →
    (a.function (first + i)).signature = sig ∧ (a.function (first + i)).body = none
  result : ∀ sig ∈ known, sig.result = result

namespace Numbers

variable (hn : a.Numbers s key result first known)

include hn

theorem find? (sig : Signature) : (List.range' first known.length).find?
      (fun id => (a.function id).signature.sameParameters sig) =
    if number known sig < known.length then some (first + number known sig) else none := by
  have hknown : (List.range' first known.length).map (fun id => (a.function id).signature) = known := by
    refine List.ext_getElem (by simp) fun i hi hi' => ?_
    simpa using (hn.function i _ (List.getElem?_eq_getElem hi')).1
  have hidx : (List.range' first known.length).findIdx
      (fun id => (a.function id).signature.sameParameters sig) = number known sig := by
    rw [number, ← congrArg (List.findIdx (·.sameParameters sig)) hknown, List.findIdx_map]
    rfl
  rw [List.find?_eq_getElem?_findIdx, hidx]
  split
  · next hlt => rw [List.getElem?_range' hlt, Nat.one_mul]
  · next hge => exact List.getElem?_eq_none (by simpa using hge)

/-- A new routine goes behind the others. -/
theorem add {f : Scope → Scope} (hresult : sig.result = result)
    (hf : ∃ p, (f (a.scope s)).find? key =
      some ⟨key, p, .routines (List.range' first (known.length + 1))⟩) :
    ((a.addFunction s name sig p).2.modifyScope s f).Numbers s key result first (known ++ [sig]) := by
  have hscope : (a.addFunction s name sig p).2.scope s = a.scope s := by
    rw [scope_addFunction, if_neg hn.scope.ne]
  have hsize : s < (a.addFunction s name sig p).2.scopes.size :=
    hn.scope.trans_le (Grows.addFunction ..).scopes
  constructor
  · simpa using hsize
  · simp
  · intro _
    rw [scope_modifyScope, if_pos ⟨rfl, hsize⟩, hscope]
    simpa using hf
  · simp only [Arena.modifyScope, Arena.addFunction, push, Array.size_push, hn.size]
    simp [Nat.add_assoc]
  · intro i t ht
    change ((a.addFunction s name sig p).2.function (first + i)).signature = t ∧
      ((a.addFunction s name sig p).2.function (first + i)).body = none
    rw [function_addFunction, hn.size]
    rcases Nat.lt_or_ge i known.length with hlt | hge
    · rw [if_neg (by omega)]
      rw [List.getElem?_append_left hlt] at ht
      exact hn.function i t ht
    · obtain ⟨hi, -⟩ := List.getElem?_eq_some_iff.mp ht
      obtain rfl : i = known.length := by
        rw [List.length_append, List.length_singleton] at hi
        omega
      rw [if_pos rfl]
      rw [List.getElem?_concat_length] at ht
      exact ⟨Option.some.inj ht, rfl⟩
  · intro t ht
    rcases List.mem_append.mp ht with ht | ht
    · exact hn.result t ht
    · rw [List.mem_singleton.mp ht, hresult]

/-- A heading gets the number of its signature. -/
theorem step (hname : Text.lower name = key) (hplaced : misplaced? sig = none)
    (hresult : sig.result = result) (p : Position) :
    ∃ a', a.declareFunction s name sig p = .ok (first + number known sig, a') ∧
      a'.Numbers s key result first (learn known sig) := by
  have hfind := hn.find? sig
  rcases Nat.lt_or_ge (number known sig) known.length with hlt | hge
  · rw [if_pos hlt] at hfind
    obtain ⟨q, hq⟩ := hn.declared (List.ne_nil_of_length_pos (by omega))
    obtain ⟨hold, hbody⟩ := hn.function _ _ (List.getElem?_eq_getElem hlt)
    have hsame : sameResult (a.function (first + number known sig)).signature.result sig.result = true := by
      rw [hold, hn.result _ (List.getElem_mem hlt), hresult]
      cases result with
      | none => rfl
      | some ty => exact ty.agrees_self
    refine ⟨a, ?_, (learn_of_lt hlt).symm ▸ hn⟩
    simp [declareFunction, hplaced, hname, hq, hfind, hbody, hsame, Pure.pure, Except.pure]
  · rw [if_neg (Nat.not_lt.mpr hge)] at hfind
    have hnumber : number known sig = known.length := le_antisymm List.findIdx_le_length hge
    have hscope : (a.addFunction s name sig p).2.scope s = a.scope s := by
      rw [scope_addFunction, if_neg hn.scope.ne]
    have hid : first + number known sig = a.functions.size := by rw [hnumber, hn.size]
    rw [learn_of_le hge, hid]
    by_cases hknown : known = []
    · have hnone := hn.fresh hknown
      refine ⟨(a.addFunction s name sig p).2.modifyScope s (·.add ⟨key, p, .routines [a.functions.size]⟩),
        ?_, hn.add hresult ⟨p, ?_⟩⟩
      · have hdeclare : (a.addFunction s name sig p).2.declare s name p (.routines [a.functions.size]) =
            .ok ((a.addFunction s name sig p).2.modifyScope s
              (·.add ⟨key, p, .routines [a.functions.size]⟩)) := by
          simp [declare, hscope, hname, hnone, Scope.add]
        have hnew : (a.addFunction s name sig p).1 = a.functions.size := rfl
        simp [declareFunction, hplaced, hname, hnone, hnew, hdeclare]
      · rw [Scope.find?_add hnone, if_pos rfl, ← hid, hnumber, hknown]
        rfl
    · obtain ⟨q, hq⟩ := hn.declared hknown
      refine ⟨(a.addFunction s name sig p).2.modifyScope s
        (·.setRoutines key (List.range' first known.length ++ [a.functions.size])), ?_,
        hn.add hresult ⟨q, ?_⟩⟩
      · simp [declareFunction, hplaced, hname, hq, hfind, addFunction, push, Scope.setRoutines, Pure.pure,
          Except.pure]
      · rw [Scope.find?_setRoutines, if_pos rfl, hq, List.range'_1_concat, hn.size]
        rfl

/-- All headings get the numbers of their signatures. The induction is on the headings, with the signatures
that are known so far. -/
theorem declareHeadings_eq (hname : ∀ h ∈ hds, Text.lower h.name = key)
    (hresult : ∀ h ∈ hds, h.signature.result = result) :
    a.declareHeadings s hds = (acceptable hds).map fun h =>
      (h, first + number (firsts known ((acceptable hds).map (·.signature))) h.signature) := by
  induction hds generalizing a known with
  | nil => rfl
  | cons h hds ih =>
    obtain ⟨hname, hnames⟩ := List.forall_mem_cons.mp hname
    obtain ⟨hresult, hresults⟩ := List.forall_mem_cons.mp hresult
    cases hplaced : misplaced? h.signature with
    | some q =>
      have hrefused : a.declareFunction s h.name h.signature h.pos =
          .error (.misplacedVarargs q.name h.pos) := by
        rw [declareFunction, hplaced]
        rfl
      have hacceptable : acceptable (h :: hds) = acceptable hds := by simp [acceptable, hplaced]
      rw [declareHeadings, hrefused, hacceptable]
      exact ih hn hnames hresults
    | none =>
      obtain ⟨a', hdeclared, hn'⟩ := hn.step hname hplaced hresult h.pos
      have hacceptable : acceptable (h :: hds) = h :: acceptable hds := by simp [acceptable, hplaced]
      rw [declareHeadings, hdeclared, hacceptable, List.map_cons, List.map_cons, firsts, List.foldl_cons,
        ← firsts, number_firsts (number_learn_lt ..), number_learn]
      exact congrArg (_ :: ·) (ih hn' hnames hresults)

end Numbers

section

variable (hs : s < a.scopes.size) (hkey : (a.scope s).find? key = none)
  (hname : ∀ h ∈ hds, Text.lower h.name = key) (hresult : ∀ h ∈ hds, h.signature.result = result)

include hs hkey hname hresult

theorem together_iff : a.Together s hds h h' ↔ h ∈ acceptable hds ∧ h' ∈ acceptable hds ∧
    number (firsts [] ((acceptable hds).map (·.signature))) h.signature =
      number (firsts [] ((acceptable hds).map (·.signature))) h'.signature := by
  have hn : a.Numbers s key result a.functions.size [] :=
    ⟨hs, fun _ => hkey, fun hne => absurd rfl hne, rfl, by simp, by simp⟩
  rw [Together, hn.declareHeadings_eq hname hresult]
  simp only [List.mem_map, Prod.mk.injEq]
  constructor
  · rintro ⟨id, ⟨x, hx, rfl, hid⟩, y, hy, rfl, hid'⟩
    exact ⟨hx, hy, by omega⟩
  · rintro ⟨hx, hy, hnumber⟩
    exact ⟨_, ⟨h, hx, rfl, rfl⟩, h', hy, rfl, by rw [hnumber]⟩

/-- Where having the same parameters passes on, it makes headings denote one routine. -/
theorem together_iff_sameParameters
    (htrans : ∀ h₁ ∈ acceptable hds, ∀ h₂ ∈ acceptable hds, ∀ h₃ ∈ acceptable hds,
      h₁.signature.sameParameters h₂.signature → h₂.signature.sameParameters h₃.signature →
        h₁.signature.sameParameters h₃.signature) :
    a.Together s hds h h' ↔ h ∈ acceptable hds ∧ h' ∈ acceptable hds ∧
      h.signature.sameParameters h'.signature := by
  rw [together_iff hs hkey hname hresult]
  refine and_congr_right fun hh => and_congr_right fun hh' => ?_
  refine number_eq_iff ?_ (List.mem_map_of_mem hh) (List.mem_map_of_mem hh')
  simpa only [List.forall_mem_map] using htrans

omit hname hresult in
/-- The first heading denotes one routine with all those that have its parameters. -/
theorem together_first (hname : ∀ x ∈ h :: hds, Text.lower x.name = key)
    (hresult : ∀ x ∈ h :: hds, x.signature.result = result) (hh : h ∈ acceptable (h :: hds)) :
    a.Together s (h :: hds) h h' ↔ h' ∈ acceptable (h :: hds) ∧
      h.signature.sameParameters h'.signature := by
  have hacceptable : acceptable (h :: hds) = h :: acceptable hds :=
    List.filter_cons_of_pos (List.mem_filter.mp hh).2
  rw [together_iff hs hkey hname hresult, and_iff_right hh, hacceptable, List.map_cons, eq_comm, number_first]

/-- Which headings of a name denote one routine does not depend on their order just when having the same
parameters passes on among them. -/
theorem together_perm_iff :
    (∀ hds', hds.Perm hds' → ∀ h h', a.Together s hds' h h' ↔ a.Together s hds h h') ↔
      ∀ h₁ ∈ acceptable hds, ∀ h₂ ∈ acceptable hds, ∀ h₃ ∈ acceptable hds,
        h₁.signature.sameParameters h₂.signature → h₂.signature.sameParameters h₃.signature →
          h₁.signature.sameParameters h₃.signature := by
  constructor
  · intro hperm
    -- Any heading may come first.
    have hsame : ∀ h ∈ acceptable hds, ∀ h' ∈ acceptable hds,
        a.Together s hds h h' ↔ h.signature.sameParameters h'.signature := by
      intro h hh h' hh'
      obtain ⟨front, back, rfl⟩ := List.append_of_mem (List.mem_filter.mp hh).1
      have hp : (front ++ h :: back).Perm (h :: (front ++ back)) := List.perm_middle
      have hmem : ∀ {x}, x ∈ acceptable (front ++ h :: back) ↔ x ∈ acceptable (h :: (front ++ back)) :=
        (hp.filter _).mem_iff
      rw [← hperm _ hp, together_first hs hkey (fun x hx => hname x (hp.mem_iff.mpr hx))
        (fun x hx => hresult x (hp.mem_iff.mpr hx)) (hmem.mp hh), and_iff_right (hmem.mp hh')]
    have hnumber := fun h h' => @together_iff a s key result hds h h' hs hkey hname hresult
    intro h₁ hh₁ h₂ hh₂ h₃ hh₃ h₁₂ h₂₃
    have h₁₂ := ((hnumber h₁ h₂).mp ((hsame h₁ hh₁ h₂ hh₂).mpr h₁₂)).2.2
    have h₂₃ := ((hnumber h₂ h₃).mp ((hsame h₂ hh₂ h₃ hh₃).mpr h₂₃)).2.2
    exact (hsame h₁ hh₁ h₃ hh₃).mp ((hnumber h₁ h₃).mpr ⟨hh₁, hh₃, h₁₂.trans h₂₃⟩)
  · intro htrans hds' hp h h'
    have hmem : ∀ {x}, x ∈ acceptable hds ↔ x ∈ acceptable hds' := (hp.filter _).mem_iff
    rw [together_iff_sameParameters hs hkey hname hresult htrans,
      together_iff_sameParameters hs hkey (fun x hx => hname x (hp.mem_iff.mpr hx))
        (fun x hx => hresult x (hp.mem_iff.mpr hx)), hmem, hmem]
    exact fun x hx y hy z hz => htrans x (hmem.mpr hx) y (hmem.mpr hy) z (hmem.mpr hz)

end

private def bareProgram : Arena := (({} : Arena).push .program "test" none).2

/-- The heading of a procedure that takes a value of a type. -/
private def taking (ty : Ty) : Heading := ⟨"show", ⟨[⟨"x", ty, .value⟩], none⟩, default⟩

theorem together_perm_overloads :
    (0 < bareProgram.scopes.size ∧ (bareProgram.scope 0).find? "show" = none) ∧
      (bareProgram.declareHeadings 0 [taking .integer, taking .string, taking .integer]).map (·.2) =
        [0, 1, 0] ∧
      ∀ hds', [taking .integer, taking .string, taking .integer].Perm hds' → ∀ h h',
        bareProgram.Together 0 hds' h h' ↔
          bareProgram.Together 0 [taking .integer, taking .string, taking .integer] h h' :=
  have hs : 0 < bareProgram.scopes.size := by decide
  have hkey : (bareProgram.scope 0).find? "show" = none := by rfl
  have hname : ∀ h ∈ [taking .integer, taking .string, taking .integer], Text.lower h.name = "show" := by
    decide +kernel
  have hresult : ∀ h ∈ [taking .integer, taking .string, taking .integer], h.signature.result = none := by
    decide
  ⟨⟨hs, hkey⟩, by rfl, (together_perm_iff hs hkey hname hresult).mpr (by decide +kernel)⟩

private def three : Heading := taking (.array .integer { lower := 1, size := 3 })

private def four : Heading := taking (.array .integer { lower := 1, size := 4 })

private def anyNumber : Heading := taking (.openArray .integer)

/-- An open array has the same parameters as arrays of different lengths. Where it comes first, these denote one
routine with it, and else only the first one does. -/
theorem together_perm_arrays :
    [three, anyNumber, four].Perm [anyNumber, three, four] ∧
      bareProgram.declareHeadings 0 [three, anyNumber, four] = [(three, 0), (anyNumber, 0), (four, 1)] ∧
      bareProgram.declareHeadings 0 [anyNumber, three, four] = [(anyNumber, 0), (three, 0), (four, 0)] ∧
      ¬ bareProgram.Together 0 [three, anyNumber, four] anyNumber four ∧
      bareProgram.Together 0 [anyNumber, three, four] anyNumber four := by
  have hfirst : bareProgram.declareHeadings 0 [three, anyNumber, four] =
      [(three, 0), (anyNumber, 0), (four, 1)] := by rfl
  have hsecond : bareProgram.declareHeadings 0 [anyNumber, three, four] =
      [(anyNumber, 0), (three, 0), (four, 0)] := by rfl
  refine ⟨.swap .., hfirst, hsecond, ?_, 0, by simp [hsecond], by simp [hsecond]⟩
  rintro ⟨id, hany, hfour⟩
  rw [hfirst] at hany hfour
  have hid : id = 0 := by
    simpa [show anyNumber ≠ three by decide, show anyNumber ≠ four by decide] using hany
  have hid' : id = 1 := by
    simpa [show four ≠ three by decide, show four ≠ anyNumber by decide] using hfour
  omega

end Arena

end Pascal
