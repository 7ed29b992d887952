import Pascal.Proofs.Scope.Hidden
import Pascal.Proofs.Signature.Exact
import Pascal.Typing.Call

/-!
# Calls without arguments

A name that stands alone is looked up scope by scope, and a call without arguments goes through the routines
of the name level by level. Both pass over routines that need arguments, so that they stop at the same scope.
Main statement: where the name means routines, the call finds one that applies just when one of these needs
no arguments, and what it chooses is one of them.
-/

namespace Pascal

namespace Signature

/-- A routine that needs no arguments has no parameters, or only one for any number of arguments. -/
def NeedsNone (s : Signature) : Prop :=
  s.params = [] ∨ ∃ p, s.params = [p] ∧ Arena.isVarargs p.ty

/-- Without arguments nothing is bound. -/
theorem bindAll_nil_isSome {further : Option (Ty × ParamMode)} {params : List Parameter} :
    (bindAll further params []).isSome ↔ params = [] := by
  cases params <;> simp [bindAll]

theorem split_nil_iff {s : Signature} : s.split.1 = [] ↔ s.NeedsNone := by
  obtain ⟨params, result⟩ := s
  unfold split NeedsNone
  dsimp only
  split
  · next name element mode hlast =>
    have hparams := List.dropLast_append_getLast? _ hlast
    constructor
    · intro hnil
      have hinit : params.dropLast = [] := hnil
      rw [hinit] at hparams
      exact .inr ⟨_, hparams.symm, rfl⟩
    · rintro (hnil | ⟨p, hp, -⟩)
      · simp [hnil] at hlast
      · simp [hp]
  · next hlast =>
    constructor
    · exact .inl
    · rintro (hnil | ⟨⟨name, ty, mode⟩, hp, hvarargs⟩)
      · exact hnil
      · cases ty with
        | varargs element => exact absurd (by rw [hp]; rfl) (hlast name element mode)
        | _ => cases hvarargs

theorem match?_nil_isSome {s : Signature} : (s.match? []).isSome ↔ s.NeedsNone := by
  rw [match?_eq, Option.isSome_map, bindAll_nil_isSome, split_nil_iff]

end Signature

namespace Arena

variable {a : Arena} {scope s : Nat} {key name : String} {cs cs' : List Callee} {pos : Position}

theorem callableBare_iff : a.callableBare cs ↔ ∃ c ∈ cs, (a.signature c).NeedsNone := by
  simp [callableBare, Signature.match?_nil_isSome]

/-- Where all routines need arguments, those among them do. -/
theorem callableBare_of_subset (h : a.callableBare cs = false) (hsub : ∀ c ∈ cs', c ∈ cs) :
    a.callableBare cs' = false := by
  rw [Bool.eq_false_iff, ne_eq, callableBare_iff] at h ⊢
  rintro ⟨c, hc, hnone⟩
  exact h ⟨c, hsub c hc, hnone⟩

/-! ### What one scope says about a name -/

/-- The routines of a name that a scope declares or imports. -/
def offered (a : Arena) (key : String) (s : Nat) : List Callee :=
  a.withImported s key ((((a.scope s).routines? key).getD []).map Callee.user)

/-- What a name means by the declarations and the imports of one scope. -/
def meaningsAt (a : Arena) (key : String) (s : Nat) : List Meaning :=
  (a.declaredMeaning? s key).toList ++ (a.importedMeaning? s key).toList

theorem mem_withImported {c : Callee} :
    c ∈ a.withImported s key cs ↔ c ∈ cs ∨ c ∈ a.importedRoutines s key :=
  mem_addNew

theorem mem_importedRoutines {c : Callee} :
    c ∈ a.importedRoutines s key ↔ ∃ i ∈ (a.scope s).imports, c ∈ a.importRoutines key i :=
  List.mem_flatMap

theorem importRoutines_eq_nil {i : Import} (h : a.importMeaning? s key i = none) :
    a.importRoutines key i = [] := by
  cases i with
  | library id =>
    unfold importMeaning? at h
    dsimp only at h
    split at h
    · next hnil => simp [importRoutines, hnil]
    · cases h
  | unit u =>
    unfold importMeaning? at h
    dsimp only at h
    split at h
    any_goals cases h
    all_goals next he => simp [importRoutines, Scope.routines?, he]

/-- Routines that an import stands for come with all others that are imported. -/
theorem mem_of_importedMeaning? (h : a.importedMeaning? s key = some (.routines cs)) (c : Callee) :
    c ∈ cs ↔ c ∈ a.importedRoutines s key := by
  obtain ⟨i, hi, hmeaning⟩ := List.exists_of_findSome?_eq_some h
  rw [(offers_of_importMeaning? hmeaning).2, mem_withImported, or_iff_right_iff_imp]
  intro hc
  exact mem_importedRoutines.mpr ⟨i, hi, hc⟩

theorem importedRoutines_eq_nil (h : a.importedMeaning? s key = none) :
    a.importedRoutines s key = [] := by
  rw [importedRoutines, List.flatMap_eq_nil_iff]
  intro i hi
  exact importRoutines_eq_nil (List.findSome?_eq_none_iff.mp h i hi)

/-- Where a name is declared as no routine, the routines that a scope offers are imported. -/
theorem offered_of_declaredMeaning? (h : a.declaredMeaning? s key = none) :
    a.offered key s = addNew [] (a.importedRoutines s key) := by
  unfold declaredMeaning? at h
  split at h
  any_goals cases h
  all_goals next he => simp [offered, withImported, Scope.routines?, he]

theorem declaredMeaning?_routines (h : a.declaredMeaning? s key = some (.routines cs)) :
    cs = a.offered key s := by
  unfold declaredMeaning? at h
  split at h
  any_goals cases h
  next ids hids => simp [offered, Scope.routines?, hids]

/-- All routines that a name means in a scope are offered there. -/
theorem subset_offered (h : .routines cs ∈ a.meaningsAt key s) : ∀ c ∈ cs, c ∈ a.offered key s := by
  intro c hc
  rcases List.mem_append.mp h with h | h
  · rwa [← declaredMeaning?_routines (Option.mem_toList.mp h)]
  · exact mem_withImported.mpr (.inr ((mem_of_importedMeaning? (Option.mem_toList.mp h) c).mp hc))

/-- Where a name means routines in a scope first of all, these are all that the scope offers. -/
theorem mem_offered_iff (h : (a.meaningsAt key s).head? = some (.routines cs)) (c : Callee) :
    c ∈ cs ↔ c ∈ a.offered key s := by
  unfold meaningsAt at h
  cases hdeclared : a.declaredMeaning? s key with
  | some m =>
    obtain rfl : m = .routines cs := by simpa [hdeclared] using h
    rw [declaredMeaning?_routines hdeclared]
  | none =>
    have himported : a.importedMeaning? s key = some (.routines cs) := by
      rw [hdeclared] at h
      cases hm : a.importedMeaning? s key <;> simp_all
    rw [mem_of_importedMeaning? himported, offered_of_declaredMeaning? hdeclared, mem_addNew]
    simp

theorem offered_eq_nil (h : a.meaningsAt key s = []) : a.offered key s = [] := by
  obtain ⟨hdeclared, himported⟩ := List.append_eq_nil_iff.mp h
  rw [offered_of_declaredMeaning? (Option.toList_eq_nil_iff.mp hdeclared),
    importedRoutines_eq_nil (Option.toList_eq_nil_iff.mp himported)]
  rfl

/-! ### Where the look-up stops -/

/-- Routines that need arguments are passed over. -/
theorem prefer_append {nearest : Option (List Callee)} {ms rest : List Meaning}
    (hms : ∀ cs', .routines cs' ∈ ms → a.callableBare cs' = false)
    (hnearest : ∀ cs' ∈ nearest, a.callableBare cs' = false)
    (h : a.prefer nearest (ms ++ rest) = some (.routines cs)) :
    ∃ nearest', (∀ cs' ∈ nearest', a.callableBare cs' = false) ∧
      a.prefer nearest' rest = some (.routines cs) := by
  induction ms generalizing nearest with
  | nil => exact ⟨nearest, hnearest, h⟩
  | cons m ms ih =>
    cases m with
    | routines cs₁ =>
      have hcs₁ := hms cs₁ List.mem_cons_self
      rw [List.cons_append, prefer, if_neg (by simp [hcs₁])] at h
      refine ih (fun cs' hcs' => hms cs' (List.mem_cons_of_mem _ hcs')) ?_ h
      rintro cs' hcs'
      obtain rfl : nearest.getD cs₁ = cs' := Option.some.inj hcs'
      cases nearest with
      | none => exact hcs₁
      | some cs₂ => exact hnearest cs₂ rfl
    | constant c => cases h
    | var v ty => cases h

/-- Routines of which one needs no arguments are those of the first scope that offers such a routine. The
induction is on the scopes outwards, with the nearest routines so far, which all need arguments. -/
theorem exists_stop {ss : List Nat} {nearest : Option (List Callee)}
    (hnearest : ∀ cs' ∈ nearest, a.callableBare cs' = false) (hbare : a.callableBare cs = true)
    (h : a.prefer nearest (ss.flatMap (a.meaningsAt key)) = some (.routines cs)) :
    ∃ inner s outer, ss = inner ++ s :: outer ∧
      (∀ t ∈ inner, a.callableBare (a.offered key t) = false) ∧ ∀ c, c ∈ cs ↔ c ∈ a.offered key s := by
  induction ss generalizing nearest with
  | nil =>
    obtain ⟨cs', hcs', he⟩ := Option.map_eq_some_iff.mp h
    cases he
    rw [hnearest cs hcs'] at hbare
    cases hbare
  | cons s ss ih =>
    rw [List.flatMap_cons] at h
    cases hoffered : a.callableBare (a.offered key s) with
    | false =>
      have hms : ∀ cs', .routines cs' ∈ a.meaningsAt key s → a.callableBare cs' = false :=
        fun cs' hcs' => callableBare_of_subset hoffered (subset_offered hcs')
      obtain ⟨nearest', hnearest', h⟩ := prefer_append hms hnearest h
      obtain ⟨inner, t, outer, rfl, hinner, hmem⟩ := ih hnearest' h
      refine ⟨s :: inner, t, outer, rfl, ?_, hmem⟩
      exact List.forall_mem_cons.mpr ⟨hoffered, hinner⟩
    | true =>
      refine ⟨[], s, ss, rfl, by simp, ?_⟩
      cases hmeanings : a.meaningsAt key s with
      | nil =>
        rw [offered_eq_nil hmeanings] at hoffered
        cases hoffered
      | cons m ms =>
        have hhead : (a.meaningsAt key s).head? = some m := by rw [hmeanings]; rfl
        rw [hmeanings, List.cons_append] at h
        cases m with
        | routines cs₁ =>
          have hcs₁ : a.callableBare cs₁ = true := by
            obtain ⟨c, hc, hnone⟩ := callableBare_iff.mp hoffered
            exact callableBare_iff.mpr ⟨c, (mem_offered_iff hhead c).mpr hc, hnone⟩
          rw [prefer, if_pos hcs₁] at h
          cases h
          exact mem_offered_iff hhead
        | constant c => cases h
        | var v ty => cases h

/-- Where a name means routines that all need arguments, so do all that the scopes around offer. -/
theorem offered_of_lookup? (h : a.lookup? scope name = some (.routines cs))
    (hargs : a.callableBare cs = false) :
    ∀ t ∈ a.chain scope, a.callableBare (a.offered (Text.lower name) t) = false := by
  intro t ht
  have hall := ((prefer_eq_routines hargs none _).mp h).2
  cases hmeanings : a.meaningsAt (Text.lower name) t with
  | nil =>
    rw [offered_eq_nil hmeanings]
    rfl
  | cons m ms =>
    have hhead : (a.meaningsAt (Text.lower name) t).head? = some m := by rw [hmeanings]; rfl
    obtain ⟨cs', rfl, hcs'⟩ :=
      hall m (List.mem_flatMap.mpr ⟨t, ht, List.mem_of_mem_head? hhead⟩)
    exact callableBare_of_subset hcs' fun c hc => (mem_offered_iff hhead c).mpr hc

/-! ### Where the call stops -/

/-- What a choice without arguments gives. -/
theorem choose_bare_cases (level : List Callee) :
    a.callableBare level = false ∧
      Signature.choose (level.map fun c => (c, a.signature c)) [] = .error .noneApplicable ∨
    a.callableBare level = true ∧
      ((∃ c ∈ level, ∃ m, Signature.choose (level.map fun c => (c, a.signature c)) [] = .ok (c, m)) ∨
        Signature.choose (level.map fun c => (c, a.signature c)) [] = .error .ambiguous) := by
  have happlies : ∀ c m, Signature.Applies (level.map fun c => (c, a.signature c)) [] c m →
      c ∈ level ∧ (a.signature c).NeedsNone := by
    rintro c m ⟨s, hs, hm⟩
    obtain ⟨c', hc', he⟩ := List.mem_map.mp hs
    cases he
    exact ⟨hc', Signature.match?_nil_isSome.mp (by rw [hm]; rfl)⟩
  have hbare : ∀ c m, Signature.Applies (level.map fun c => (c, a.signature c)) [] c m →
      a.callableBare level = true := fun c m h => callableBare_iff.mpr ⟨c, happlies c m h⟩
  rcases Signature.choose_cases (level.map fun c => (c, a.signature c)) [] with
    ⟨c, m, hc, hlead⟩ | ⟨c, m, hc, hlead⟩ | ⟨hc, hnil⟩
  · have h := Signature.mem_applicable.mp hlead.mem
    exact .inr ⟨hbare c m h, .inl ⟨c, (happlies c m h).1, m, hc⟩⟩
  · exact .inr ⟨hbare c m (Signature.mem_applicable.mp hlead.mem), .inr hc⟩
  · refine .inl ⟨?_, hc⟩
    rw [Bool.eq_false_iff, ne_eq, callableBare_iff]
    rintro ⟨c, hmem, hnone⟩
    obtain ⟨m, hm⟩ := Option.isSome_iff_exists.mp (Signature.match?_nil_isSome.mpr hnone)
    have happlies : (c, m) ∈ Signature.applicable (level.map fun c => (c, a.signature c)) [] :=
      Signature.mem_applicable.mpr ⟨_, List.mem_map.mpr ⟨c, hmem, rfl⟩, hm⟩
    rw [hnil] at happlies
    cases happlies

/-- Scopes that offer no routines make no level. -/
theorem chooseCallee_candidateLevels (shapes : List Shape) :
    a.chooseCallee name shapes pos (a.candidateLevels scope name) =
      a.chooseCallee name shapes pos ((a.chain scope).map (a.offered (Text.lower name))) := by
  unfold candidateLevels
  dsimp only
  induction a.chain scope with
  | nil => rfl
  | cons s ss ih =>
    rw [List.filterMap_cons, List.map_cons, ← offered]
    cases hlevel : a.offered (Text.lower name) s with
    | nil => exact ih
    | cons c cs =>
      dsimp only
      rw [chooseCallee, chooseCallee, ih]

theorem chooseCallee_append {front back : List (List Callee)}
    (h : ∀ level ∈ front, a.callableBare level = false) :
    a.chooseCallee name [] pos (front ++ back) = a.chooseCallee name [] pos back := by
  induction front with
  | nil => rfl
  | cons level front ih =>
    obtain ⟨hlevel, hfront⟩ := List.forall_mem_cons.mp h
    rcases a.choose_bare_cases level with ⟨-, hnone⟩ | ⟨hbare, -⟩
    · rw [List.cons_append, chooseCallee, hnone]
      exact ih hfront
    · rw [hlevel] at hbare
      cases hbare

theorem resolveCall_nil : a.resolveCall scope name [] pos =
    (a.chooseCallee name [] pos ((a.chain scope).map (a.offered (Text.lower name)))).map
      fun r => (r.1, [], (a.signature r.1).result) := by
  rw [← chooseCallee_candidateLevels]
  unfold resolveCall
  rw [List.map_nil]
  cases a.chooseCallee name [] pos (a.candidateLevels scope name) <;> rfl

/-- Where a name that stands alone means routines, its call without arguments finds none that applies just
when all of them need arguments, and what it chooses is one of them. -/
theorem resolveCall_bare (h : a.lookup? scope name = some (.routines cs)) (pos : Position) :
    ((∃ name' types pos', a.resolveCall scope name [] pos =
        .error (.scope (.noApplicableOverload name' types pos'))) ↔
      ¬ ∃ c ∈ cs, (a.signature c).NeedsNone) ∧
    ∀ c args result, a.resolveCall scope name [] pos = .ok (c, args, result) → c ∈ cs := by
  rw [resolveCall_nil, ← callableBare_iff]
  cases hbare : a.callableBare cs with
  | false =>
    have hpassed : ∀ level ∈ (a.chain scope).map (a.offered (Text.lower name)),
        a.callableBare level = false :=
      List.forall_mem_map.mpr (offered_of_lookup? h hbare)
    rw [← List.append_nil ((a.chain scope).map _), chooseCallee_append hpassed]
    refine ⟨⟨fun _ => by simp, fun _ => ⟨name, _, pos, rfl⟩⟩, ?_⟩
    intro c args result hok
    cases hok
  | true =>
    obtain ⟨inner, s, outer, hchain, hinner, hmem⟩ := exists_stop (by simp) hbare h
    have hstop : a.callableBare (a.offered (Text.lower name) s) = true := by
      obtain ⟨c, hc, hnone⟩ := callableBare_iff.mp hbare
      exact callableBare_iff.mpr ⟨c, (hmem c).mp hc, hnone⟩
    rw [hchain, List.map_append, chooseCallee_append (List.forall_mem_map.mpr hinner), List.map_cons,
      chooseCallee]
    rcases a.choose_bare_cases (a.offered (Text.lower name) s) with ⟨hargs, -⟩ | ⟨-, hchosen⟩
    · rw [hstop] at hargs
      cases hargs
    rcases hchosen with ⟨c, hc, m, hchoose⟩ | hchoose
    · rw [hchoose]
      refine ⟨⟨?_, by simp⟩, ?_⟩
      · rintro ⟨_, _, _, herror⟩
        cases herror
      · intro c' args result hok
        cases hok
        exact (hmem c).mpr hc
    · rw [hchoose]
      refine ⟨⟨?_, by simp⟩, ?_⟩
      · rintro ⟨_, _, _, herror⟩
        cases herror
      · intro c' args result hok
        cases hok

/-- A unit with a routine in two overloads, of which one needs no argument, and a program with a procedure that
has a routine of the same name inside, which needs one. -/
private def nestedCount : Arena :=
  let pos : Position := default
  let counting (params : List Parameter) : Signature := ⟨params, some .integer⟩
  [Operation.push .program "test" none, .push .unit "shapes" none,
    .declareFunction 1 "count" (counting [⟨"n", .integer, .value⟩]) pos,
    .declareFunction 1 "count" (counting []) pos, .addImport 0 (.unit 1),
    .declareFunction 0 "show" ⟨[], none⟩ pos,
    .declareFunction 4 "count" (counting [⟨"s", .string, .value⟩]) pos].foldl Arena.afterOperation {}

/-- The nearer overload is passed over by the name alone and by the call alike. -/
theorem resolveCall_bare_nested :
    nestedCount.lookup? 4 "Count" = some (.routines [.user 0, .user 1]) ∧
      nestedCount.offered "count" 4 = [.user 3] ∧
      ((∃ name types pos, nestedCount.resolveCall 4 "Count" [] default =
          .error (.scope (.noApplicableOverload name types pos))) ↔
        ¬ ∃ c ∈ [Callee.user 0, .user 1], (nestedCount.signature c).NeedsNone) ∧
      nestedCount.resolveCall 4 "Count" [] default = .ok (.user 1, [], some .integer) ∧
      Callee.user 1 ∈ [Callee.user 0, .user 1] :=
  have h : nestedCount.lookup? 4 "Count" = some (.routines [.user 0, .user 1]) := by rfl
  have hcall : nestedCount.resolveCall 4 "Count" [] default = .ok (.user 1, [], some .integer) := by rfl
  have hbare := resolveCall_bare h default
  ⟨h, by rfl, hbare.1, hcall, hbare.2 _ _ _ hcall⟩

end Arena

end Pascal
