import Mathlib.Data.Finset.Card
import Mathlib.Logic.Relation
import Pascal.Proofs.Scope.Resolve
import Pascal.Proofs.Scope.Tables

/-!
# What a name that stands alone passes over

Routines that need arguments do not hide a constant or a variable that is declared at their level or further
out. Within the imports of one scope it is the first one with the name that decides, so that routines do hide
a constant or a variable that is imported behind them.
-/

namespace Pascal.Arena

variable {a : Arena} {scope s : Nat} {key name : String}

/-! ### The scopes around a scope -/

/-- A scope is the other one, or it lies around it. -/
def Around (a : Arena) (scope s : Nat) : Prop :=
  Relation.ReflTransGen (fun s t => (a.scope s).parent = some t) scope s

/-- The scope that lies a number of levels further out. -/
def outward (a : Arena) (scope : Nat) : Nat → Option Nat
  | 0 => some scope
  | n + 1 => (a.outward scope n).bind fun s => (a.scope s).parent

theorem outward_add (scope n k : Nat) :
    a.outward scope (n + k) = (a.outward scope n).bind (a.outward · k) := by
  induction k with
  | zero => simp [outward]
  | succ k ih =>
    calc a.outward scope (n + k + 1)
      _ = (a.outward scope (n + k)).bind fun s => (a.scope s).parent := rfl
      _ = (a.outward scope n).bind fun t => (a.outward t k).bind fun s => (a.scope s).parent := by
        rw [ih, Option.bind_assoc]

theorem outward_succ (scope n : Nat) :
    a.outward scope (n + 1) = (a.scope scope).parent.bind (a.outward · n) := by
  rw [Nat.add_comm, outward_add]
  rfl

theorem around_iff : a.Around scope s ↔ ∃ n, a.outward scope n = some s := by
  constructor
  · intro h
    induction h with
    | refl => exact ⟨0, rfl⟩
    | tail _ hparent ih =>
      obtain ⟨n, hn⟩ := ih
      exact ⟨n + 1, by rw [outward, hn]; exact hparent⟩
  · rintro ⟨n, hn⟩
    induction n generalizing s with
    | zero =>
      cases hn
      exact .refl
    | succ n ih =>
      obtain ⟨t, ht, hparent⟩ := Option.bind_eq_some_iff.mp hn
      exact (ih ht).tail hparent

theorem mem_chainWithin {fuel : Nat} :
    s ∈ a.chainWithin fuel scope ↔ ∃ n < fuel, a.outward scope n = some s := by
  induction fuel generalizing scope with
  | zero => simp [chainWithin]
  | succ fuel ih =>
    have hchain : a.chainWithin (fuel + 1) scope =
        scope :: ((a.scope scope).parent.map (a.chainWithin fuel)).getD [] := by
      rw [chainWithin]
      cases (a.scope scope).parent <;> rfl
    have houter : s ∈ ((a.scope scope).parent.map (a.chainWithin fuel)).getD [] ↔
        ∃ n < fuel, a.outward scope (n + 1) = some s := by
      simp only [outward_succ]
      cases (a.scope scope).parent with
      | none => simp
      | some parent => simp [ih]
    rw [hchain, List.mem_cons, houter]
    constructor
    · rintro (rfl | ⟨n, hn, hs⟩)
      · exact ⟨0, by omega, rfl⟩
      · exact ⟨n + 1, by omega, hs⟩
    · rintro ⟨n, hn, hs⟩
      cases n with
      | zero => exact .inl (Option.some.inj hs).symm
      | succ n => exact .inr ⟨n, by omega, hs⟩

/-- Only scopes that there are have others around them. -/
theorem lt_of_outward {n i : Nat} (h : a.outward scope n = some s) (hi : i < n) :
    ∃ t, a.outward scope i = some t ∧ t < a.scopes.size := by
  obtain ⟨k, rfl⟩ : ∃ k, n = i + (k + 1) := ⟨n - i - 1, by omega⟩
  rw [outward_add] at h
  obtain ⟨t, ht, hrest⟩ := Option.bind_eq_some_iff.mp h
  rw [outward_succ] at hrest
  obtain ⟨parent, hparent, -⟩ := Option.bind_eq_some_iff.mp hrest
  refine ⟨t, ht, ?_⟩
  by_contra hge
  simp [Arena.scope, hge, default] at hparent

/-- Where a way outwards is longer than the number of scopes, it comes to one of them twice, and what lies
between can be left out. -/
theorem exists_outward_le {n : Nat} (h : a.outward scope n = some s) :
    ∃ k ≤ a.scopes.size, a.outward scope k = some s := by
  induction n using Nat.strong_induction_on with
  | _ n ih =>
    by_cases hn : n ≤ a.scopes.size
    · exact ⟨n, hn, h⟩
    · have hcard : (Finset.range a.scopes.size).card < (Finset.range n).card := by
        simp only [Finset.card_range]
        omega
      have hmaps : ∀ i ∈ Finset.range n, (a.outward scope i).getD 0 ∈ Finset.range a.scopes.size := by
        intro i hi
        obtain ⟨t, ht, hlt⟩ := lt_of_outward h (Finset.mem_range.mp hi)
        simp [ht, hlt]
      obtain ⟨i, hi, j, hj, hne, hsame⟩ :=
        Finset.exists_ne_map_eq_of_card_lt_of_maps_to hcard hmaps
      wlog hij : i < j generalizing i j
      · exact this j hj i hi hne.symm hsame.symm (by omega)
      obtain ⟨t, ht, -⟩ := lt_of_outward h (Finset.mem_range.mp hi)
      obtain ⟨u, hu, -⟩ := lt_of_outward h (Finset.mem_range.mp hj)
      obtain rfl : t = u := by simpa [ht, hu] using hsame
      obtain ⟨k, rfl⟩ : ∃ k, n = j + k := ⟨n - j, by have := Finset.mem_range.mp hj; omega⟩
      have hshort : a.outward scope (i + k) = some s := by
        rw [outward_add, ht, ← h, outward_add, hu]
      exact ih (i + k) (by omega) hshort

theorem mem_chain_iff : s ∈ a.chain scope ↔ a.Around scope s := by
  rw [chain, mem_chainWithin, around_iff]
  constructor
  · rintro ⟨n, -, hn⟩
    exact ⟨n, hn⟩
  · rintro ⟨n, hn⟩
    obtain ⟨k, hk, hs⟩ := exists_outward_le hn
    exact ⟨k, by omega, hs⟩

/-! ### Constants, variables and routines of a name -/

/-- A scope declares a name as a constant or a variable. -/
def DeclaresValue (a : Arena) (key : String) (s : Nat) : Prop :=
  (∃ c, (a.scope s).entity? key = some (.constant c)) ∨ ∃ v, (a.scope s).entity? key = some (.var v)

/-- An import offers a constant or a variable of a name. -/
def OffersValue (a : Arena) (key : String) : Import → Prop
  | .library id => ∃ c, (key, c) ∈ (a.library id).constants
  | .unit u => a.DeclaresValue key u

/-- An import offers routines of a name. -/
def OffersRoutines (a : Arena) (key : String) : Import → Prop
  | .library id => ∃ n, (key, n) ∈ (a.library id).routines
  | .unit u => ∃ ids, (a.scope u).entity? key = some (.routines ids)

/-- Routines that need arguments are preferred just where there is nothing else, and the first ones of them
are. The induction is on the meanings to come, with the nearest routines so far. -/
theorem prefer_eq_routines {cs : List Callee} (h : a.callableBare cs = false)
    (nearest : Option (List Callee)) (ms : List Meaning) :
    a.prefer nearest ms = some (.routines cs) ↔
      (nearest.map .routines).or ms.head? = some (.routines cs) ∧
        ∀ m ∈ ms, ∃ cs', m = .routines cs' ∧ a.callableBare cs' = false := by
  induction ms generalizing nearest with
  | nil => simp [prefer]
  | cons m ms ih =>
    cases m with
    | routines cs' =>
      rw [prefer, List.forall_mem_cons]
      cases hbare : a.callableBare cs' with
      | true =>
        have hne : cs' ≠ cs := by
          rintro rfl
          rw [h] at hbare
          cases hbare
        simp [hne, hbare]
      | false =>
        rw [if_neg (by simp), ih]
        cases nearest <;> simp [hbare]
    | constant c => simp [prefer]
    | var v ty => simp [prefer]

/-- A name that an import offers a constant or a variable of means something there. -/
theorem importMeaning?_isSome {i : Import} (h : a.OffersValue key i) :
    (a.importMeaning? s key i).isSome = true := by
  cases i with
  | library id =>
    obtain ⟨c, hc⟩ := h
    unfold importMeaning?
    dsimp only
    split
    · rw [Option.isSome_map, List.find?_isSome]
      exact ⟨(key, c), hc, by simp⟩
    · rfl
  | unit u =>
    rcases h with ⟨c, hc⟩ | ⟨v, hv⟩
    · simp [importMeaning?, hc]
    · simp [importMeaning?, hv]

/-- An import that stands for routines offers them, and they come with all others that are imported. -/
theorem offers_of_importMeaning? {i : Import} {cs : List Callee}
    (h : a.importMeaning? s key i = some (.routines cs)) :
    a.OffersRoutines key i ∧ cs = a.withImported s key (a.importRoutines key i) := by
  cases i with
  | library id =>
    unfold importMeaning? at h
    dsimp only at h
    split at h
    · obtain ⟨_, -, he⟩ := Option.map_eq_some_iff.mp h
      cases he
    · next hsome =>
      cases h
      refine ⟨?_, rfl⟩
      obtain ⟨n, hn⟩ := List.exists_mem_of_ne_nil _ hsome
      obtain ⟨⟨k, m⟩, hmem, he⟩ := List.mem_filterMap.mp hn
      dsimp only at he
      split at he
      · next hk =>
        obtain rfl := beq_iff_eq.mp hk
        exact ⟨m, hmem⟩
      · cases he
  | unit u =>
    unfold importMeaning? at h
    dsimp only at h
    split at h
    · next ids hids =>
      cases h
      exact ⟨⟨ids, hids⟩, by simp [importRoutines, Scope.routines?, hids]⟩
    all_goals cases h

/-- Where a name that stands alone means routines that need arguments, neither the scope nor one around it
declares a constant or a variable of that name, and where one is imported, routines of the name are imported
before it or with it. -/
theorem lookup?_passes {cs : List Callee} (h : a.lookup? scope name = some (.routines cs))
    (hargs : a.callableBare cs = false) (hs : a.Around scope s) :
    ¬ a.DeclaresValue (Text.lower name) s ∧
      ∀ front i back, (a.scope s).imports = front ++ i :: back →
        a.OffersValue (Text.lower name) i → ∃ j ∈ front ++ [i], a.OffersRoutines (Text.lower name) j := by
  set key := Text.lower name
  have hall := ((prefer_eq_routines hargs none _).mp h).2
  have hmeanings : ∀ m, a.declaredMeaning? s key = some m ∨ a.importedMeaning? s key = some m →
      ∃ cs', m = .routines cs' := by
    intro m hm
    have hmem : m ∈ a.meanings scope key :=
      List.mem_flatMap.mpr ⟨s, mem_chain_iff.mpr hs, by simpa using hm⟩
    obtain ⟨cs', hcs, -⟩ := hall m hmem
    exact ⟨cs', hcs⟩
  constructor
  · rintro (⟨c, hc⟩ | ⟨v, hv⟩)
    · obtain ⟨cs', hcs⟩ := hmeanings (.constant c) (.inl (by simp [declaredMeaning?, hc]))
      cases hcs
    · obtain ⟨cs', hcs⟩ := hmeanings (.var ⟨s, key⟩ v.ty) (.inl (by simp [declaredMeaning?, hv]))
      cases hcs
  · intro front i back himports hvalue
    -- The first import that knows the name is found at `i` or before it.
    have hknown : ((front ++ [i]).findSome? (a.importMeaning? s key)).isSome = true := by
      rw [List.findSome?_isSome_iff]
      exact ⟨i, by simp, importMeaning?_isSome hvalue⟩
    obtain ⟨m, hm⟩ := Option.isSome_iff_exists.mp hknown
    have hfirst : a.importedMeaning? s key = some m := by
      rw [importedMeaning?, himports, List.append_cons, List.findSome?_append, hm]
      rfl
    obtain ⟨cs', rfl⟩ := hmeanings m (.inr hfirst)
    obtain ⟨j, hj, hmeaning⟩ := List.exists_of_findSome?_eq_some hm
    exact ⟨j, hj, (offers_of_importMeaning? hmeaning).1⟩

/-- A unit with a routine of one parameter, a unit with a constant of the same name, and a program with a
procedure that uses first the one and then the other. -/
private def shapesThenLimits : List Operation :=
  let pos : Position := default
  let counting : Signature := ⟨[⟨"n", .integer, .value⟩], some .integer⟩
  [.push .program "test" none, .push .unit "shapes" none, .declareFunction 1 "count" counting pos,
    .push .unit "limits" none, .declareConstant 3 ⟨"count", .integer 7, .integer, pos⟩,
    .declareFunction 0 "show" ⟨[], none⟩ pos, .addImport 0 (.unit 1), .addImport 0 (.unit 3)]

private def twoUnits : Arena := shapesThenLimits.foldl Arena.afterOperation {}

theorem lookup?_passes_twoUnits :
    twoUnits.lookup? 4 "Count" = some (.routines [.user 0]) ∧
      twoUnits.callableBare [.user 0] = false ∧ twoUnits.Around 4 0 ∧
      ¬ twoUnits.DeclaresValue (Text.lower "Count") 0 ∧
      ∀ front i back, (twoUnits.scope 0).imports = front ++ i :: back →
        twoUnits.OffersValue (Text.lower "Count") i →
        ∃ j ∈ front ++ [i], twoUnits.OffersRoutines (Text.lower "Count") j :=
  have h : twoUnits.lookup? 4 "Count" = some (.routines [.user 0]) := by rfl
  have hargs : twoUnits.callableBare [.user 0] = false := by decide +kernel
  have hs : twoUnits.Around 4 0 := .single (by decide +kernel)
  ⟨h, hargs, hs, lookup?_passes h hargs hs⟩

/-- The constant of the second unit is hidden by the routine of the first one. -/
theorem lookup?_passes_hidden :
    twoUnits.lookup? 0 "count" = some (.routines [.user 0]) ∧
      twoUnits.callableBare [.user 0] = false ∧
      .unit 3 ∈ (twoUnits.scope 0).imports ∧ twoUnits.OffersValue "count" (.unit 3) :=
  ⟨by rfl, by decide +kernel, by decide +kernel, .inl ⟨⟨"count", .integer 7, .integer, default⟩, by rfl⟩⟩

end Pascal.Arena
