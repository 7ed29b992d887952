import Mathlib.Data.List.Nodup
import Mathlib.Order.Nat
import Pascal.Signature

/-!
# The one candidate with the least cost

The matches of a call are gone through once. What is kept of them is a match with the least cost so far,
and whether another one costs as much. That does not depend on their order, and it tells which candidate
is chosen, and when there is none or more than one.
-/

namespace Pascal.Signature

variable {α : Type} {found found' : List (α × Match)} {candidates : List (α × Signature)}
  {args : List Shape} {a b : α} {m n : Match} {tied tied' : Bool}

/-- A candidate can be called with some arguments, which are bound by a match. -/
def Applies (candidates : List (α × Signature)) (args : List Shape) (a : α) (m : Match) : Prop :=
  ∃ s, (a, s) ∈ candidates ∧ s.match? args = some m

/-- The candidates that can be called, with their matches. -/
def applicable (candidates : List (α × Signature)) (args : List Shape) : List (α × Match) :=
  candidates.filterMap fun (a, s) => (s.match? args).map (a, ·)

@[simp] theorem mem_applicable :
    (a, m) ∈ applicable candidates args ↔ Applies candidates args a m := by
  simp [applicable, Applies, List.mem_filterMap]

/-- The matches of a certain cost. -/
def ofCost (found : List (α × Match)) (cost : Nat) : List (α × Match) :=
  found.filter fun x => x.2.cost == cost

@[simp] theorem mem_ofCost {cost : Nat} {x : α × Match} :
    x ∈ ofCost found cost ↔ x ∈ found ∧ x.2.cost = cost := by
  simp [ofCost]

theorem ofCost_append (found found' : List (α × Match)) (cost : Nat) :
    ofCost (found ++ found') cost = ofCost found cost ++ ofCost found' cost :=
  List.filter_append ..

theorem ofCost_singleton (x : α × Match) (cost : Nat) :
    ofCost [x] cost = if x.2.cost = cost then [x] else [] := by
  simp [ofCost, List.filter_singleton]

/-- No match costs less than that of `a`, and `tied` tells whether another one costs as much. -/
structure Leads (found : List (α × Match)) (a : α) (m : Match) (tied : Bool) : Prop where
  mem : (a, m) ∈ found
  least : ∀ x ∈ found, m.cost ≤ x.2.cost
  tied_iff : tied = true ↔ 1 < (ofCost found m.cost).length

namespace Leads

theorem of_least (hmem : (a, m) ∈ found) (hleast : ∀ x ∈ found, m.cost ≤ x.2.cost) :
    Leads found a m (decide (1 < (ofCost found m.cost).length)) :=
  ⟨hmem, hleast, decide_eq_true_iff⟩

/-- A match that costs as little as one that leads alone is that one. -/
theorem eq_of_cost (h : Leads found a m false) (hb : (b, n) ∈ found) (hcost : n.cost = m.cost) :
    (b, n) = (a, m) := by
  have ha : (a, m) ∈ ofCost found m.cost := mem_ofCost.mpr ⟨h.mem, rfl⟩
  have hb : (b, n) ∈ ofCost found m.cost := mem_ofCost.mpr ⟨hb, hcost⟩
  have hlength : (ofCost found m.cost).length = 1 := by
    have hpos := List.length_pos_of_mem ha
    have hone : ¬ 1 < (ofCost found m.cost).length := fun htwo =>
      Bool.false_ne_true (h.tied_iff.mpr htwo)
    omega
  obtain ⟨x, hx⟩ := List.length_eq_one_iff.mp hlength
  rw [hx, List.mem_singleton] at ha hb
  rw [hb, ha]

/-- All matches that lead cost the same. -/
theorem cost_eq (h : Leads found a m tied) (h' : Leads found b n tied') : n.cost = m.cost :=
  Nat.le_antisymm (h'.least _ h.mem) (h.least _ h'.mem)

theorem tied_eq (h : Leads found a m tied) (h' : Leads found b n tied') : tied' = tied := by
  apply Bool.eq_iff_iff.mpr
  rw [h.tied_iff, h'.tied_iff, h.cost_eq h']

theorem perm (h : Leads found a m tied) (hp : found.Perm found') : Leads found' a m tied where
  mem := hp.mem_iff.mp h.mem
  least x hx := h.least x (hp.mem_iff.mpr hx)
  tied_iff := by rw [h.tied_iff, ofCost, ofCost, (hp.filter _).length_eq]

end Leads

/-- What is kept of the matches found so far. -/
def Best (found : List (α × Match)) : Option (α × Match × Bool) → Prop
  | none => found = []
  | some (a, m, tied) => Leads found a m tied

/-- One more match: it costs more than the best one, or the same, or it is the new best one. -/
theorem Best.better {best : Option (α × Match × Bool)} (h : Best found best) (x : α × Match) :
    Best (found ++ [x]) (better best x) := by
  match best, h with
  | none, h =>
    obtain rfl : found = [] := h
    exact ⟨by simp, by simp, by simp [ofCost_singleton]⟩
  | some (a, m, tied), (h : Leads found a m tied) =>
    have hfirst : 0 < (ofCost found m.cost).length :=
      List.length_pos_of_mem (mem_ofCost.mpr ⟨h.mem, rfl⟩)
    have hleast {cost : Nat} (hm : cost ≤ m.cost) (hx : cost ≤ x.2.cost) :
        ∀ y ∈ found ++ [x], cost ≤ y.2.cost := by
      intro y hy
      rcases List.mem_append.mp hy with hy | hy
      · exact hm.trans (h.least y hy)
      · rwa [List.mem_singleton.mp hy]
    unfold Signature.better
    dsimp only
    split
    · next hmore =>
      refine ⟨List.mem_append_left _ h.mem, hleast le_rfl hmore.le, ?_⟩
      rw [h.tied_iff, ofCost_append, ofCost_singleton, if_neg (by omega), List.append_nil]
    · split
      · next hsame =>
        refine ⟨List.mem_append_left _ h.mem, hleast le_rfl hsame.le, ?_⟩
        rw [ofCost_append, ofCost_singleton, if_pos hsame.symm, List.length_append]
        simp [hfirst]
      · next hmore hsame =>
        have hless : x.2.cost < m.cost := by omega
        have hnone : ofCost found x.2.cost = [] := by
          apply List.eq_nil_iff_forall_not_mem.mpr
          intro y hy
          obtain ⟨hy, hcost⟩ := mem_ofCost.mp hy
          have := h.least y hy
          omega
        refine ⟨by simp, hleast hless.le le_rfl, ?_⟩
        simp [ofCost_append, ofCost_singleton, hnone]

/-- The whole pass. The induction is on the matches to come, behind those that were found before. -/
theorem Best.foldl {best : Option (α × Match × Bool)} (h : Best found best)
    (rest : List (α × Match)) : Best (found ++ rest) (rest.foldl Signature.better best) := by
  induction rest generalizing found best with
  | nil => simpa using h
  | cons x rest ih =>
    rw [List.foldl_cons, List.append_cons]
    exact ih (h.better x)

/-- The three answers of a choice, and what was found with each of them. -/
theorem choose_cases (candidates : List (α × Signature)) (args : List Shape) :
    (∃ a m, choose candidates args = .ok (a, m) ∧ Leads (applicable candidates args) a m false) ∨
    (∃ a m, choose candidates args = .error .ambiguous ∧
      Leads (applicable candidates args) a m true) ∨
    choose candidates args = .error .noneApplicable ∧ applicable candidates args = [] := by
  have hempty : Best ([] : List (α × Match)) none := rfl
  have hbest := hempty.foldl (applicable candidates args)
  rw [List.nil_append] at hbest
  unfold choose
  rw [← applicable]
  dsimp only
  generalize (applicable candidates args).foldl better none = best at hbest ⊢
  rcases best with _ | ⟨a, m, _ | _⟩
  · exact .inr (.inr ⟨rfl, hbest⟩)
  · exact .inl ⟨a, m, rfl, hbest⟩
  · exact .inr (.inl ⟨a, m, rfl, hbest⟩)

theorem choose_eq_ok_iff :
    choose candidates args = .ok (a, m) ↔ Leads (applicable candidates args) a m false := by
  constructor
  · intro h
    rcases choose_cases candidates args with ⟨b, n, hc, hlead⟩ | ⟨_, _, hc, -⟩ | ⟨hc, -⟩ <;>
      rw [hc] at h <;> cases h
    exact hlead
  · intro h
    rcases choose_cases candidates args with ⟨b, n, hc, hlead⟩ | ⟨_, _, -, hlead⟩ | ⟨-, hnil⟩
    · rw [hc, h.eq_of_cost hlead.mem (h.cost_eq hlead)]
    · cases h.tied_eq hlead
    · exact absurd h.mem (by simp [hnil])

theorem applies_of_choose (h : choose candidates args = .ok (a, m)) : Applies candidates args a m :=
  mem_applicable.mp (choose_eq_ok_iff.mp h).mem

theorem choose_eq_ambiguous_iff : choose candidates args = .error .ambiguous ↔
    ∃ a m, Leads (applicable candidates args) a m true := by
  constructor
  · intro h
    rcases choose_cases candidates args with ⟨_, _, hc, -⟩ | ⟨a, m, -, hlead⟩ | ⟨hc, -⟩
    · rw [hc] at h; cases h
    · exact ⟨a, m, hlead⟩
    · rw [hc] at h; cases h
  · rintro ⟨a, m, h⟩
    rcases choose_cases candidates args with ⟨_, _, -, hlead⟩ | ⟨_, _, hc, -⟩ | ⟨-, hnil⟩
    · cases h.tied_eq hlead
    · exact hc
    · exact absurd h.mem (by simp [hnil])

theorem choose_eq_noneApplicable_iff : choose candidates args = .error .noneApplicable ↔
    applicable candidates args = [] := by
  constructor
  · intro h
    rcases choose_cases candidates args with ⟨_, _, hc, -⟩ | ⟨_, _, hc, -⟩ | ⟨-, hnil⟩
    · rw [hc] at h; cases h
    · rw [hc] at h; cases h
    · exact hnil
  · intro h
    rcases choose_cases candidates args with ⟨_, _, -, hlead⟩ | ⟨_, _, -, hlead⟩ | ⟨hc, -⟩
    · exact absurd hlead.mem (by simp [h])
    · exact absurd hlead.mem (by simp [h])
    · exact hc

/-- The order of the candidates does not matter. -/
theorem choose_perm {candidates' : List (α × Signature)} (h : candidates'.Perm candidates)
    (args : List Shape) : choose candidates' args = choose candidates args := by
  have hp : (applicable candidates args).Perm (applicable candidates' args) := h.symm.filterMap _
  rcases choose_cases candidates args with ⟨a, m, hc, hlead⟩ | ⟨a, m, hc, hlead⟩ | ⟨hc, hnil⟩
  · rw [hc, choose_eq_ok_iff.mpr (hlead.perm hp)]
  · rw [hc, choose_eq_ambiguous_iff.mpr ⟨a, m, hlead.perm hp⟩]
  · rw [hnil] at hp
    rw [hc, choose_eq_noneApplicable_iff.mpr hp.symm.eq_nil]

/-! ### Candidates that can be told apart -/

theorem nodup_applicable (h : (candidates.map Prod.fst).Nodup) (args : List Shape) :
    ((applicable candidates args).map Prod.fst).Nodup := by
  rw [List.Nodup, List.pairwise_map] at h ⊢
  rw [applicable, List.pairwise_filterMap]
  apply h.imp
  rintro ⟨a, s⟩ ⟨b, t⟩ hne x hx y hy
  obtain ⟨m, -, rfl⟩ := Option.map_eq_some_iff.mp hx
  obtain ⟨n, -, rfl⟩ := Option.map_eq_some_iff.mp hy
  exact hne

/-- Where two matches have some cost, one of them is of another candidate than `a`. -/
theorem exists_other {cost : Nat} (h : (found.map Prod.fst).Nodup)
    (htwo : 1 < (ofCost found cost).length) (a : α) :
    ∃ b n, (b, n) ∈ found ∧ b ≠ a ∧ n.cost = cost := by
  have hnodup : ((ofCost found cost).map Prod.fst).Nodup :=
    (List.filter_sublist.map Prod.fst).nodup h
  have hmem : ∀ x ∈ ofCost found cost, x ∈ found ∧ x.2.cost = cost := fun _ => mem_ofCost.mp
  match ofCost found cost, htwo, hnodup, hmem with
  | x :: y :: rest, _, hnodup, hmem =>
    obtain ⟨hx, hxcost⟩ := hmem x (by simp)
    obtain ⟨hy, hycost⟩ := hmem y (by simp)
    by_cases hxa : x.1 = a
    · have hya : y.1 ≠ a := by
        rintro rfl
        simp [hxa] at hnodup
      exact ⟨y.1, y.2, hy, hya, hycost⟩
    · exact ⟨x.1, x.2, hx, hxa, hxcost⟩

theorem leads_false_iff (h : (found.map Prod.fst).Nodup) : Leads found a m false ↔
    (a, m) ∈ found ∧ ∀ b n, (b, n) ∈ found → b ≠ a → m.cost < n.cost := by
  constructor
  · intro hlead
    refine ⟨hlead.mem, fun b n hb hne => ?_⟩
    apply (hlead.least _ hb).lt_of_ne
    intro hcost
    have heq := hlead.eq_of_cost hb hcost.symm
    exact hne (congrArg Prod.fst heq)
  · rintro ⟨hmem, hless⟩
    have hleast : ∀ x ∈ found, m.cost ≤ x.2.cost := by
      intro x hx
      by_cases hxa : x.1 = a
      · have heq := List.inj_on_of_nodup_map h hx hmem hxa
        rw [heq]
      · exact (hless x.1 x.2 hx hxa).le
    have hlead := Leads.of_least hmem hleast
    have halone : ¬ 1 < (ofCost found m.cost).length := by
      intro htwo
      obtain ⟨b, n, hb, hne, hcost⟩ := exists_other h htwo a
      have := hless b n hb hne
      omega
    rwa [decide_eq_false halone] at hlead

theorem leads_true_iff (h : (found.map Prod.fst).Nodup) : Leads found a m true ↔
    (a, m) ∈ found ∧ (∀ b n, (b, n) ∈ found → m.cost ≤ n.cost) ∧
      ∃ b n, (b, n) ∈ found ∧ b ≠ a ∧ n.cost = m.cost := by
  constructor
  · intro hlead
    exact ⟨hlead.mem, fun b n hb => hlead.least _ hb,
      exists_other h (hlead.tied_iff.mp rfl) a⟩
  · rintro ⟨hmem, hleast, b, n, hb, hne, hcost⟩
    have hlead := Leads.of_least hmem fun x hx => hleast x.1 x.2 hx
    cases htied : decide (1 < (ofCost found m.cost).length) with
    | true => rwa [htied] at hlead
    | false =>
      rw [htied] at hlead
      exact absurd (congrArg Prod.fst (hlead.eq_of_cost hb hcost)) hne

/-- Among candidates that can be told apart, one is chosen just when it applies and costs less than every
other one that does. The call is ambiguous just when two of them share the least cost, and there is no
choice just when none applies. The order of the candidates does not matter. -/
theorem choose_cheapest (h : (candidates.map Prod.fst).Nodup) (args : List Shape) :
    (∀ a m, choose candidates args = .ok (a, m) ↔ Applies candidates args a m ∧
      ∀ b n, Applies candidates args b n → b ≠ a → m.cost < n.cost) ∧
    (choose candidates args = .error .ambiguous ↔
      ∃ a m b n, Applies candidates args a m ∧ Applies candidates args b n ∧ b ≠ a ∧
        n.cost = m.cost ∧ ∀ c k, Applies candidates args c k → m.cost ≤ k.cost) ∧
    (choose candidates args = .error .noneApplicable ↔ ∀ a m, ¬ Applies candidates args a m) ∧
    ∀ candidates', candidates'.Perm candidates → choose candidates' args = choose candidates args := by
  have hfound := nodup_applicable h args
  refine ⟨?chosen, ?ambiguous, ?none, fun _ hp => choose_perm hp args⟩
  case chosen =>
    intro a m
    simp only [choose_eq_ok_iff, leads_false_iff hfound, mem_applicable]
  case ambiguous =>
    simp only [choose_eq_ambiguous_iff, leads_true_iff hfound, mem_applicable]
    constructor
    · rintro ⟨a, m, ha, hleast, b, n, hb, hne, hcost⟩
      exact ⟨a, m, b, n, ha, hb, hne, hcost, hleast⟩
    · rintro ⟨a, m, b, n, ha, hb, hne, hcost, hleast⟩
      exact ⟨a, m, ha, hleast, b, n, hb, hne, hcost⟩
  case none =>
    rw [choose_eq_noneApplicable_iff, List.eq_nil_iff_forall_not_mem]
    constructor
    · intro hnone a m ha
      exact hnone (a, m) (mem_applicable.mpr ha)
    · intro hnone x hx
      exact hnone x.1 x.2 (mem_applicable.mp hx)

/-- A procedure with one parameter. -/
def taking (ty : Ty) (mode : ParamMode) : Signature := ⟨[⟨"x", ty, mode⟩], none⟩

/-- Routines that take a real number, a long integer and a truth value. -/
def numeric : List (Nat × Signature) :=
  [(0, taking .double .value), (1, taking .long .value), (2, taking .boolean .value)]

/-- A character is closer to a long integer than to a real number, in every order of the routines. -/
theorem choose_cheapest_character :
    (numeric.map Prod.fst).Nodup ∧
      choose numeric [⟨.char, false⟩] = .ok (1, ⟨2, [.value .long]⟩) ∧
      choose numeric.reverse [⟨.char, false⟩] = choose numeric [⟨.char, false⟩] := by
  have hids : (numeric.map Prod.fst).Nodup := by decide
  obtain ⟨hchosen, -, -, horder⟩ := choose_cheapest hids [⟨.char, false⟩]
  have happlies : Applies numeric [⟨.char, false⟩] 1 ⟨2, [.value .long]⟩ :=
    ⟨_, List.mem_cons_of_mem _ List.mem_cons_self, rfl⟩
  refine ⟨hids, (hchosen 1 _).mpr ⟨happlies, ?_⟩, horder _ (List.reverse_perm _)⟩
  rintro b n ⟨s, hs, hmatch⟩ hne
  simp only [numeric, List.mem_cons, Prod.mk.injEq, List.not_mem_nil, or_false] at hs
  rcases hs with ⟨rfl, rfl⟩ | ⟨rfl, rfl⟩ | ⟨rfl, rfl⟩
  · cases hmatch
    decide
  · exact absurd rfl hne
  · cases hmatch

end Pascal.Signature
