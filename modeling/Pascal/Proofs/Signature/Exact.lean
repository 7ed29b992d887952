import Mathlib.Data.List.Forall2
import Pascal.Proofs.Signature.Choice

/-!
# Exact matches

A routine whose parameters have the very types of the arguments binds them at no cost, so that no other
routine can be preferred to it. But other routines may bind them at no cost as well: types agree also where
a range is left open, and a variable is bound as it is. Then the call is ambiguous. An array is also bound
at no cost as one of elements of all types; what calls with such parameters come to is left open here.
-/

namespace Pascal

namespace Ty

/-- Whether `nil` is a value of the type, or of its elements. -/
def holdsNil : Ty → Bool
  | array element _ => element.holdsNil
  | varargs element => element.holdsNil
  | nil => true
  | _ => false

/-- Whether values of one type are values of another one as they are. A range may be left open. -/
def isTakenAs : Ty → Ty → Bool
  | basic a, basic b => a == b
  | array e r, array e' r' => r.fits r' && e.isTakenAs e'
  | pointer t, pointer t' => t.agrees t'
  | varargs e, varargs e' => e.isTakenAs e'
  | any, any => true
  | text, text => true
  | _, _ => false

/-- Whether elements of arrays become ones of all types where values of one type are passed as values of
another one. `inside` says that the values are elements. -/
def blursTo (inside : Bool) : Ty → Ty → Bool
  | t, any => inside && !t.isAny
  | array e _, array e' _ => e.blursTo true e'
  | varargs e, varargs e' => e.blursTo inside e'
  | _, _ => false

/-- Whether passing values of one type as values of another one costs nothing: they are taken as they are,
or elements become ones of all types. `inside` says that the values are elements. -/
def passesAs (inside : Bool) : Ty → Ty → Bool
  | t, any => inside || t.isAny
  | basic a, basic b => a == b
  | array e r, array e' r' => r.fits r' && e.passesAs true e'
  | pointer t, pointer t' => t.agrees t'
  | varargs e, varargs e' => e.passesAs inside e'
  | text, text => true
  | _, _ => false

/-- Passing costs nothing where values are taken as they are. -/
theorem passesAs_of_isTakenAs {t t' : Ty} (h : t.isTakenAs t') (inside : Bool) :
    t.passesAs inside t' := by
  induction t generalizing inside t' with
  | array e r ih =>
    cases t' with
    | array e' r' =>
      obtain ⟨hr, he⟩ := Bool.and_eq_true_iff.mp h
      exact Bool.and_eq_true_iff.mpr ⟨hr, ih he true⟩
    | _ => cases h
  | varargs e ih =>
    cases t' with
    | varargs e' => exact ih h inside
    | _ => cases h
  | any =>
    cases t' with
    | any => simp [passesAs, isAny]
    | _ => cases h
  | basic | pointer | text | nil =>
    cases t' with
    | any => cases h
    | _ => exact h

/-- Where passing costs nothing, values are taken as they are, or elements become ones of all types. -/
theorem isTakenAs_of_passesAs {inside : Bool} {t t' : Ty} (h : t.passesAs inside t') :
    t.isTakenAs t' ∨ t.blursTo inside t' := by
  induction t generalizing inside t' with
  | array e r ih =>
    cases t' with
    | array e' r' =>
      obtain ⟨hr, he⟩ := Bool.and_eq_true_iff.mp h
      exact (ih he).imp (fun he => Bool.and_eq_true_iff.mpr ⟨hr, he⟩) id
    | any => exact .inr (by simpa [passesAs, blursTo, isAny] using h)
    | _ => cases h
  | varargs e ih =>
    cases t' with
    | varargs e' => exact ih h
    | any => exact .inr (by simpa [passesAs, blursTo, isAny] using h)
    | _ => cases h
  | any =>
    cases t' with
    | any => exact .inl rfl
    | _ => cases h
  | basic | pointer | text | nil =>
    cases t' with
    | any => exact .inr (by simpa [passesAs, blursTo, isAny] using h)
    | _ => exact .inl h

theorem agrees_self (t : Ty) : t.agrees t = true := by
  induction t with
  | array e r ih => simp [agrees, Subrange.agrees, ih]
  | pointer t ih => simpa [agrees] using ih
  | varargs e ih => simpa [agrees] using ih
  | basic b => simp [agrees]
  | any | text | nil => rfl

theorem passesAs_self {t : Ty} (h : t.holdsNil = false) (inside : Bool) :
    t.passesAs inside t = true := by
  induction t generalizing inside with
  | array e r ih =>
    have hr : r.fits r = true := by
      simp only [Subrange.fits, Subrange.agrees]
      cases r.isOpen <;> simp
    simp [passesAs, hr, ih h]
  | pointer t _ => exact t.agrees_self
  | varargs e ih => exact ih h inside
  | basic b => simp [passesAs]
  | any => simp [passesAs, isAny]
  | text => rfl
  | nil => cases h

end Ty

namespace Conversion

/-- A conversion costs nothing, or it leaves an element as it is in an array of all types. -/
def Free (inside : Bool) (c : Conversion) : Prop := c.cost = 0 ∨ inside = true ∧ c = toAny

theorem ofBasic?_free (inside : Bool) (a b : Basic) :
    (∃ c, ofBasic? a b = some c ∧ c.Free inside) ↔ a = b := by
  unfold ofBasic? Free
  constructor
  · rintro ⟨c, hc, hfree⟩
    by_contra hne
    rw [if_neg hne] at hc
    split at hc
    · cases hc
      simp [cost] at hfree
    · split at hc
      · next i j hi hj =>
        split at hc
        · next hlt =>
          cases hc
          simp only [cost, hi, hj, reduceCtorEq, and_false, or_false] at hfree
          omega
        · cases hc
      · cases hc
  · rintro rfl
    exact ⟨identity, if_pos rfl, .inl rfl⟩

private theorem between?_any_free (inside : Bool) (t : Ty) :
    (∃ c, between? t .any = some c ∧ c.Free inside) ↔ t.passesAs inside .any = true := by
  have hany : between? t .any = some (if t.isAny then identity else toAny) := by cases t <;> rfl
  have hpasses : t.passesAs inside .any = (inside || t.isAny) := by cases t <;> rfl
  rw [hany, hpasses]
  cases t.isAny <;> simp [Free, cost]

/-- A conversion of arrays costs what the conversion of their elements costs, unless these stay as they are
in an array of all types. -/
private theorem between?_array_free {e e' : Ty} {r r' : Subrange} (inside : Bool) :
    (∃ c, between? (.array e r) (.array e' r') = some c ∧ c.Free inside) ↔
      r.fits r' = true ∧ ∃ c, between? e e' = some c ∧ c.Free true := by
  rw [between?]
  by_cases hr : r.fits r' = true
  · rw [if_pos hr]
    cases between? e e' with
    | none => simp
    | some c => cases c <;> simp [hr, Free, cost]
  · simp [hr]

/-- A conversion costs nothing just where values pass as they are. -/
theorem between?_free (inside : Bool) (t t' : Ty) :
    (∃ c, between? t t' = some c ∧ c.Free inside) ↔ t.passesAs inside t' = true := by
  induction t generalizing inside t' with
  | array e r ih =>
    cases t' with
    | any => exact between?_any_free inside _
    | array e' r' => rw [between?_array_free, ih, Ty.passesAs, Bool.and_eq_true]
    | _ => simp [between?, Ty.passesAs]
  | varargs e ih =>
    cases t' with
    | any => exact between?_any_free inside _
    | varargs e' => exact ih inside e'
    | _ => simp [between?, Ty.passesAs]
  | basic b =>
    cases t' with
    | any => exact between?_any_free inside _
    | basic b' =>
      rw [between?, ofBasic?_free, Ty.passesAs, beq_iff_eq]
    | _ => simp [between?, Ty.passesAs]
  | pointer t _ =>
    cases t' with
    | any => exact between?_any_free inside _
    | pointer t' => by_cases h : t.agrees t' = true <;> simp [between?, Ty.passesAs, h, Free, cost]
    | _ => simp [between?, Ty.passesAs]
  | any | text | nil =>
    cases t' with
    | any => exact between?_any_free inside _
    | _ => simp [between?, Ty.passesAs, Free, cost]

end Conversion

namespace Shape

/-- Whether a parameter of a type and a mode takes an argument as it is. -/
def isTakenBy (arg : Shape) (ty : Ty) : ParamMode → Bool
  | .var => arg.assignable && arg.ty.fits ty
  | .value | .const => arg.ty.isTakenAs ty

/-- Whether a parameter of a type and a mode takes elements of an argument as ones of all types. -/
def isBlurredBy (arg : Shape) (ty : Ty) : ParamMode → Bool
  | .var => false
  | .value | .const => arg.ty.blursTo false ty

/-- Whether an argument goes to a parameter of a type and a mode at no cost. -/
def passesTo (arg : Shape) (ty : Ty) : ParamMode → Bool
  | .var => arg.assignable && arg.ty.fits ty
  | .value | .const => arg.ty.passesAs false ty

variable {arg : Shape} {ty : Ty} {mode : ParamMode}

theorem passesTo_of_isTakenBy (h : arg.isTakenBy ty mode) : arg.passesTo ty mode := by
  cases mode with
  | var => exact h
  | value | const => exact Ty.passesAs_of_isTakenAs h false

theorem isTakenBy_of_passesTo (h : arg.passesTo ty mode) :
    arg.isTakenBy ty mode ∨ arg.isBlurredBy ty mode := by
  cases mode with
  | var => exact .inl h
  | value | const => exact Ty.isTakenAs_of_passesAs h

end Shape

namespace Signature

/-- Every argument goes to a parameter that takes it as it is. -/
structure TakesAsIs (s : Signature) (args : List Shape) : Prop where
  plain : s.split.2 = none
  params : List.Forall₂ (fun arg (p : Parameter) => arg.isTakenBy p.ty p.mode = true) args s.params

/-- No parameter takes elements of its argument as ones of all types. -/
def TakesSharply (s : Signature) (args : List Shape) : Prop :=
  ∀ x ∈ args.zip s.params, x.1.isBlurredBy x.2.ty x.2.mode = false

/-- Every argument goes to a parameter at no cost. -/
structure TakesFreely (s : Signature) (args : List Shape) : Prop where
  plain : s.split.2 = none
  params : List.Forall₂ (fun arg (p : Parameter) => arg.passesTo p.ty p.mode = true) args s.params

theorem TakesAsIs.freely {s : Signature} {args : List Shape} (h : s.TakesAsIs args) :
    s.TakesFreely args :=
  ⟨h.plain, h.params.imp fun _ _ => Shape.passesTo_of_isTakenBy⟩

theorem TakesFreely.asIs {s : Signature} {args : List Shape} (h : s.TakesFreely args)
    (hsharp : s.TakesSharply args) : s.TakesAsIs args := by
  refine ⟨h.plain, List.forall₂_iff_zip.mpr ⟨h.params.length_eq, fun {arg p} hmem => ?_⟩⟩
  have hpasses := (List.forall₂_iff_zip.mp h.params).2 hmem
  refine (Shape.isTakenBy_of_passesTo hpasses).resolve_right fun hblurred => ?_
  rw [hsharp _ hmem] at hblurred
  cases hblurred

/-- The parameters have the very types of the arguments, and none of them is a reference. -/
structure Exact (s : Signature) (args : List Shape) : Prop where
  plain : s.split.2 = none
  types : s.params.map (·.ty) = args.map (·.ty)
  modes : ∀ p ∈ s.params, p.mode ≠ .var

variable {s : Signature} {args : List Shape}

/-- Binding an argument costs nothing just where it goes to the parameter at no cost. -/
theorem bind_free {ty : Ty} {mode : ParamMode} {arg : Shape} :
    (∃ b, bind ty mode arg = some (0, b)) ↔ arg.passesTo ty mode = true := by
  have hvalue : (∃ b, ((Conversion.between? arg.ty ty).map fun c => (c.cost, Binding.value ty)) =
      some (0, b)) ↔ arg.ty.passesAs false ty = true := by
    rw [← Conversion.between?_free]
    simp [Conversion.Free]
  cases mode with
  | var =>
    have hfits : arg.ty.fits .any = arg.ty.isAny := by cases arg.ty <;> rfl
    have hany : ty.isAny = true → ty = .any := by cases ty <;> simp [Ty.isAny]
    unfold bind Shape.passesTo
    cases arg.assignable with
    | false => simp
    | true =>
      by_cases hall : (ty.isAny && !arg.ty.isAny) = true
      · obtain ⟨hty, harg⟩ := Bool.and_eq_true_iff.mp hall
        obtain rfl := hany hty
        have harg : arg.ty.isAny = false := by simpa using harg
        simp [hfits, harg, hty, Conversion.cost]
      · simp only [if_neg hall]
        simp
  | value => exact hvalue
  | const => exact hvalue

theorem split_of_plain (h : s.split.2 = none) : s.split.1 = s.params := by
  unfold split at h ⊢
  split at h
  · cases h
  · rfl

theorem match?_eq (s : Signature) (args : List Shape) : s.match? args =
    (bindAll s.split.2 s.split.1 args).map fun m =>
      if s.split.2.isSome then ⟨m.cost + 1, m.bindings⟩ else m := rfl

theorem match?_of_plain (h : s.split.2 = none) : s.match? args = bindAll none s.params args := by
  simp [match?_eq, h, split_of_plain h]

/-- Binding all arguments costs nothing just where each of them goes to its parameter at no cost. -/
theorem bindAll_free {params : List Parameter} :
    (∃ m, bindAll none params args = some m ∧ m.cost = 0) ↔
      List.Forall₂ (fun arg (p : Parameter) => arg.passesTo p.ty p.mode = true) args params := by
  induction params generalizing args with
  | nil =>
    cases args with
    | nil => simp [bindAll]
    | cons arg args => simp [bindAll]
  | cons p params ih =>
    cases args with
    | nil => simp [bindAll]
    | cons arg args =>
      rw [List.forall₂_cons, ← bind_free, ← ih]
      constructor
      · rintro ⟨m, hm, hcost⟩
        obtain ⟨⟨cost, b⟩, hbind, hrest⟩ := Option.bind_eq_some_iff.mp hm
        obtain ⟨m', hm', he⟩ := Option.bind_eq_some_iff.mp hrest
        cases he
        have hzero : cost = 0 ∧ m'.cost = 0 := by
          dsimp only at hcost
          omega
        exact ⟨⟨b, hzero.1 ▸ hbind⟩, m', hm', hzero.2⟩
      · rintro ⟨⟨b, hbind⟩, m, hm, hcost⟩
        refine ⟨⟨0 + m.cost, b :: m.bindings⟩, ?_, by simp [hcost]⟩
        rw [bindAll, hbind, hm]
        rfl

/-- A call costs nothing just where the routine takes all arguments freely. -/
theorem match?_free : (∃ m, s.match? args = some m ∧ m.cost = 0) ↔ s.TakesFreely args := by
  constructor
  · rintro ⟨m, hm, hcost⟩
    have hplain : s.split.2 = none := by
      by_contra hne
      obtain ⟨f, hf⟩ := Option.ne_none_iff_exists'.mp hne
      rw [match?_eq, hf] at hm
      obtain ⟨m', -, rfl⟩ := Option.map_eq_some_iff.mp hm
      simp at hcost
    rw [match?_of_plain hplain] at hm
    exact ⟨hplain, bindAll_free.mp ⟨m, hm, hcost⟩⟩
  · rintro ⟨hplain, hparams⟩
    rw [match?_of_plain hplain]
    exact bindAll_free.mpr hparams

/-- What has the very types of the parameters is taken as it is. -/
theorem bindAll_exact {params : List Parameter} (htypes : params.map (·.ty) = args.map (·.ty))
    (hmodes : ∀ p ∈ params, p.mode ≠ .var) (hnil : ∀ arg ∈ args, arg.ty.holdsNil = false) :
    bindAll none params args = some ⟨0, args.map fun arg => .value arg.ty⟩ := by
  induction params generalizing args with
  | nil =>
    obtain rfl := List.map_eq_nil_iff.mp htypes.symm
    rfl
  | cons p params ih =>
    cases args with
    | nil => cases htypes
    | cons arg args =>
      obtain ⟨hty, htypes⟩ : p.ty = arg.ty ∧ _ := List.cons.inj htypes
      obtain ⟨hmode, hmodes⟩ := List.forall_mem_cons.mp hmodes
      obtain ⟨harg, hnil⟩ := List.forall_mem_cons.mp hnil
      have hself := (Conversion.between?_free false arg.ty arg.ty).mpr (Ty.passesAs_self harg false)
      obtain ⟨c, hc, hfree⟩ := hself
      have hcost : c.cost = 0 := by simpa [Conversion.Free] using hfree
      have hbind : bind p.ty p.mode arg = some (0, .value arg.ty) := by
        rw [hty]
        cases hm : p.mode with
        | var => exact absurd hm hmode
        | value => simp [bind, hc, hcost]
        | const => simp [bind, hc, hcost]
      rw [bindAll, hbind, ih htypes hmodes hnil]
      rfl

theorem Exact.match?_eq (h : s.Exact args) (hnil : ∀ arg ∈ args, arg.ty.holdsNil = false) :
    s.match? args = some ⟨0, args.map fun arg => .value arg.ty⟩ := by
  rw [match?_of_plain h.plain]
  exact bindAll_exact h.types h.modes hnil

section

variable {α : Type} {candidates before after : List (α × Signature)} {a : α}

theorem ofCost_zero : ofCost (applicable candidates args) 0 = [] ↔
    ∀ c ∈ candidates, ¬ c.2.TakesFreely args := by
  rw [List.eq_nil_iff_forall_not_mem]
  constructor
  · intro hnone c hc hfree
    obtain ⟨m, hm, hcost⟩ := match?_free.mpr hfree
    exact hnone (c.1, m) (mem_ofCost.mpr ⟨mem_applicable.mpr ⟨c.2, hc, hm⟩, hcost⟩)
  · intro hnone x hx
    obtain ⟨hmem, hcost⟩ := mem_ofCost.mp hx
    obtain ⟨s, hs, hm⟩ := mem_applicable.mp hmem
    exact hnone _ hs (match?_free.mp ⟨x.2, hm, hcost⟩)

theorem length_ofCost_zero {m : Match} (hm : s.match? args = some m) (hcost : m.cost = 0) :
    (ofCost (applicable (before ++ (a, s) :: after) args) 0).length =
      (ofCost (applicable (before ++ after) args) 0).length + 1 := by
  simp [applicable, List.filterMap_append, hm, ofCost, hcost]
  omega

/-- A routine that binds the arguments at no cost is the one that is called, unless another one takes them
freely, too. -/
theorem choose_free {m : Match} (hm : s.match? args = some m) (hcost : m.cost = 0) :
    choose (before ++ (a, s) :: after) args =
      if ofCost (applicable (before ++ after) args) 0 = [] then .ok (a, m) else .error .ambiguous := by
  have hmem : (a, m) ∈ applicable (before ++ (a, s) :: after) args :=
    mem_applicable.mpr ⟨s, by simp, hm⟩
  have hlead := Leads.of_least hmem fun x _ => hcost ▸ Nat.zero_le _
  rw [hcost, length_ofCost_zero hm hcost] at hlead
  split
  · next hnone =>
    rw [hnone, List.length_nil] at hlead
    exact choose_eq_ok_iff.mpr hlead
  · next hsome =>
    have htied := List.length_pos_iff.mpr hsome
    rw [decide_eq_true (by omega)] at hlead
    exact choose_eq_ambiguous_iff.mpr ⟨a, m, hlead⟩

/-- A call is never resolved to another routine than one that has the very types of the arguments. It is
ambiguous where another routine takes all arguments as they are. Otherwise it is resolved to that one, unless
another routine takes some of them only because elements of arrays become ones of all types, and all at no
cost. -/
theorem choose_exact (h : s.Exact args) (hnil : ∀ arg ∈ args, arg.ty.holdsNil = false) :
    (choose (before ++ (a, s) :: after) args = .ok (a, ⟨0, args.map fun arg => .value arg.ty⟩) ∨
      choose (before ++ (a, s) :: after) args = .error .ambiguous) ∧
    ((∃ c ∈ before ++ after, c.2.TakesAsIs args) →
      choose (before ++ (a, s) :: after) args = .error .ambiguous) ∧
    ((∀ c ∈ before ++ after, ¬ c.2.TakesAsIs args) →
      (∀ c ∈ before ++ after, c.2.TakesFreely args → c.2.TakesSharply args) →
      choose (before ++ (a, s) :: after) args = .ok (a, ⟨0, args.map fun arg => .value arg.ty⟩)) := by
  rw [choose_free (h.match?_eq hnil) rfl]
  refine ⟨?_, ?_, ?_⟩
  · split
    · exact .inl rfl
    · exact .inr rfl
  · rintro ⟨c, hc, htakes⟩
    exact if_neg fun hnone => ofCost_zero.mp hnone c hc htakes.freely
  · intro hnone hsharp
    exact if_pos (ofCost_zero.mpr fun c hc hfree => hnone c hc (hfree.asIs (hsharp c hc hfree)))

/-- A routine for arrays of all types takes an array at no cost, too. -/
example :
    let t : Ty := .array .integer { lower := 1, size := 3 }
    choose [(0, taking t .value), (1, taking (.openArray .any) .value)] [⟨t, false⟩] =
      .error .ambiguous := by rfl

/-- An array of integers goes to the routine for its type, not to one for open arrays of real numbers. -/
theorem choose_exact_array :
    let t : Ty := .array .integer { lower := 1, size := 3 }
    (taking t .value).Exact [⟨t, true⟩] ∧ t.holdsNil = false ∧
      choose [(0, taking (.openArray .double) .value), (1, taking t .value)] [⟨t, true⟩] =
        .ok (1, ⟨0, [.value t]⟩) := by
  intro t
  have hexact : (taking t .value).Exact [⟨t, true⟩] := ⟨rfl, rfl, by simp [taking]⟩
  have hnil : ∀ arg ∈ [(⟨t, true⟩ : Shape)], arg.ty.holdsNil = false := by simp [t, Ty.holdsNil]
  refine ⟨hexact, rfl, ?_⟩
  change choose ([(0, taking (.openArray .double) .value)] ++ (1, taking t .value) :: []) _ = _
  refine (choose_exact hexact hnil).2.2 ?_ ?_
  · rintro c hc ⟨-, hparams⟩
    obtain rfl := List.mem_singleton.mp hc
    obtain ⟨htaken, -⟩ := List.forall₂_cons.mp hparams
    cases htaken
  · rintro c hc - x hx
    obtain rfl := List.mem_singleton.mp hc
    obtain rfl := List.mem_singleton.mp hx
    rfl

/-- Where an exact match is not the only one with its cost, the call is ambiguous: an open array takes an
array with declared bounds as it is, a reference takes a variable, and `nil` is converted to every pointer
type as it is to its own. -/
theorem choose_exact_tied :
    let t : Ty := .array .integer { lower := 1, size := 3 }
    ((taking t .value).Exact [⟨t, false⟩] ∧ ¬ (taking (.openArray .integer) .value).Exact [⟨t, false⟩] ∧
      choose [(0, taking t .value), (1, taking (.openArray .integer) .value)] [⟨t, false⟩] =
        .error .ambiguous) ∧
    ((taking .integer .value).Exact [⟨.integer, true⟩] ∧
      ¬ (taking .integer .var).Exact [⟨.integer, true⟩] ∧
      choose [(0, taking .integer .value), (1, taking .integer .var)] [⟨.integer, true⟩] =
        .error .ambiguous) ∧
    (taking .nil .value).Exact [⟨.nil, false⟩] ∧ ¬ (taking (.pointer .integer) .value).Exact [⟨.nil, false⟩] ∧
      choose [(0, taking .nil .value), (1, taking (.pointer .integer) .value)] [⟨.nil, false⟩] =
        .error .ambiguous := by
  intro t
  refine ⟨⟨⟨rfl, rfl, by simp [taking]⟩, ?bounds, rfl⟩, ⟨⟨rfl, rfl, by simp [taking]⟩, ?reference, rfl⟩,
    ⟨rfl, rfl, by simp [taking]⟩, ?pointer, rfl⟩
  case bounds =>
    rintro ⟨-, htypes, -⟩
    cases htypes
  case reference =>
    rintro ⟨-, -, hmodes⟩
    exact hmodes _ List.mem_cons_self rfl
  case pointer =>
    rintro ⟨-, htypes, -⟩
    cases htypes

end

end Signature

end Pascal
