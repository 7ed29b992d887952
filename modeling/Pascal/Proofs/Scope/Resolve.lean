import Pascal.Proofs.Scope.Nested

/-! # What names are resolved to -/

namespace Pascal.Arena

variable {a : Arena} {scope s : Nat} {key name : String}

/-- The scopes whose declarations can be named from a scope: those around it, and units. -/
def Visible (a : Arena) (scope s : Nat) : Prop := s ∈ a.chain scope ∨ (a.scope s).kind = .unit

/-- The routines that can be called from a scope. -/
def Callable (a : Arena) (scope : Nat) : Callee → Prop
  | .user id => id < a.functions.size ∧ a.Visible scope (a.function id).declaredIn
  | .native id => id < a.natives.size

private theorem library_mem {id : Nat} (h : (a.library id).routines ≠ [] ∨
    (a.library id).constants ≠ [] ∨ (a.library id).types ≠ []) : a.library id ∈ a.libraries := by
  cases hl : a.libraries[id]? with
  | none => simp [library, hl] at h
  | some l =>
    obtain ⟨hlt, he⟩ := Array.getElem?_eq_some_iff.mp hl
    have hid : a.library id = l := by simp [library, hl]
    rw [hid, ← he]
    exact Array.getElem_mem hlt

theorem prefer_mem {nearest : Option (List Callee)} {ms : List Meaning} {m : Meaning}
    (h : a.prefer nearest ms = some m) (hm : ∀ cs, m ≠ .routines cs) : m ∈ ms := by
  induction ms generalizing nearest with
  | nil =>
    rw [prefer] at h
    obtain ⟨cs, -, rfl⟩ := Option.map_eq_some_iff.mp h
    exact absurd rfl (hm cs)
  | cons m' ms ih =>
    cases m' with
    | routines cs =>
      rw [prefer] at h
      split at h
      · cases h; exact absurd rfl (hm cs)
      · exact List.mem_cons_of_mem _ (ih h)
    | constant c => rw [prefer] at h; cases h; exact List.mem_cons_self; simp
    | var v ty => rw [prefer] at h; cases h; exact List.mem_cons_self; simp

/-- A name that stands for no routines was declared in a scope around, or imported there. -/
theorem lookup?_eq_some {m : Meaning} (h : a.lookup? scope name = some m)
    (hm : ∀ cs, m ≠ .routines cs) : ∃ s ∈ a.chain scope,
      a.declaredMeaning? s (Text.lower name) = some m ∨
      ∃ i ∈ (a.scope s).imports, a.importMeaning? s (Text.lower name) i = some m := by
  obtain ⟨s, hs, hmem⟩ := List.mem_flatMap.mp (prefer_mem h hm)
  refine ⟨s, hs, ?_⟩
  rcases List.mem_append.mp hmem with hmem | hmem
  · exact .inl (Option.mem_toList.mp hmem)
  · obtain ⟨i, hi, he⟩ := List.exists_of_findSome?_eq_some (Option.mem_toList.mp hmem)
    exact .inr ⟨i, hi, he⟩

/-- A variable that is named is one that its scope declares, and its scope is visible. -/
theorem lookup?_var (hn : a.Nested) {v : VarRef} {ty : Ty}
    (h : a.lookup? scope name = some (.var v ty)) :
    a.Visible scope v.scope ∧ ∃ x, (a.scope v.scope).entity? v.name = some (.var x) ∧ x.ty = ty := by
  obtain ⟨s, hs, h | ⟨i, hi, h⟩⟩ := lookup?_eq_some h (by simp)
  · unfold declaredMeaning? at h
    split at h <;> cases h
    next x hx => exact ⟨.inl hs, x, hx, rfl⟩
  · cases i with
    | library id =>
      simp only [importMeaning?] at h
      split at h
      · obtain ⟨_, -, he⟩ := Option.map_eq_some_iff.mp h
        cases he
      · cases h
    | unit u =>
      simp only [importMeaning?] at h
      split at h <;> cases h
      next x hx => exact ⟨.inr (((hn.sound s).imports u hi).2), x, hx, rfl⟩

/-- A constant that is named was declared by a scope or by a library. -/
theorem lookup?_constant {c : Constant} (h : a.lookup? scope name = some (.constant c)) :
    (∃ s key, (a.scope s).entity? key = some (.constant c)) ∨
      ∃ l ∈ a.libraries, ∃ k ∈ l.constants, k.2 = c := by
  obtain ⟨s, hs, h | ⟨i, hi, h⟩⟩ := lookup?_eq_some h (by simp)
  · unfold declaredMeaning? at h
    split at h <;> cases h
    next hx => exact .inl ⟨_, _, hx⟩
  · cases i with
    | library id =>
      simp only [importMeaning?] at h
      split at h
      · obtain ⟨k, hk, he⟩ := Option.map_eq_some_iff.mp h
        cases he
        have hmem := List.mem_of_find?_eq_some hk
        exact .inr ⟨_, library_mem (.inr (.inl (List.ne_nil_of_mem hmem))), k, hmem, rfl⟩
      · cases h
    | unit u =>
      simp only [importMeaning?] at h
      split at h <;> cases h
      next hx => exact .inl ⟨_, _, hx⟩

/-- A type that is named was declared by a scope or by a library. -/
theorem lookupType?_eq_some {ty : Ty} (h : a.lookupType? scope name = some ty) :
    (∃ s key, (a.scope s).entity? key = some (.type ty)) ∨
      ∃ l ∈ a.libraries, ∃ k ∈ l.types, k.2 = ty := by
  have htype : ∀ {s key}, (a.scope s).type? key = some ty →
      ∃ s key, (a.scope s).entity? key = some (.type ty) := by
    intro s key h
    unfold Scope.type? at h
    split at h <;> cases h
    next hx => exact ⟨s, key, hx⟩
  obtain ⟨s, -, h⟩ := List.exists_of_findSome?_eq_some h
  rcases Option.or_eq_some_iff.mp h with h | ⟨-, h⟩
  · exact .inl (htype h)
  · obtain ⟨i, -, h⟩ := List.exists_of_findSome?_eq_some h
    cases i with
    | library id =>
      obtain ⟨k, hk, rfl⟩ := Option.map_eq_some_iff.mp h
      have hmem := List.mem_of_find?_eq_some hk
      exact .inr ⟨_, library_mem (.inr (.inr (List.ne_nil_of_mem hmem))), k, hmem, rfl⟩
    | unit u => exact .inl (htype h)

theorem mem_addNew {cs extra : List Callee} {c : Callee} :
    c ∈ addNew cs extra ↔ c ∈ cs ∨ c ∈ extra := by
  unfold addNew
  induction extra generalizing cs with
  | nil => simp
  | cons e extra ih =>
    rw [List.foldl_cons, ih]
    split
    · next he =>
      have hmem : e ∈ cs := by simpa using he
      constructor
      · exact Or.imp_right (List.mem_cons_of_mem e)
      · rintro (hc | hc)
        · exact .inl hc
        · rcases List.mem_cons.mp hc with rfl | hc
          · exact .inl hmem
          · exact .inr hc
    · rw [List.mem_append, List.mem_singleton, List.mem_cons, or_assoc]

private theorem callable_declared (hn : a.Nested) (hs : a.Visible scope s) {c : Callee}
    (h : c ∈ (((a.scope s).routines? key).getD []).map Callee.user) : a.Callable scope c := by
  obtain ⟨id, hid, rfl⟩ := List.mem_map.mp h
  cases hr : (a.scope s).routines? key with
  | none => simp [hr] at hid
  | some ids =>
    have he : (a.scope s).entity? key = some (.routines ids) := by
      unfold Scope.routines? at hr
      split at hr <;> cases hr
      assumption
    obtain ⟨hlt, hin⟩ := (hn.sound s).routines key ids he id (by simpa [hr] using hid)
    exact ⟨hlt, hin ▸ hs⟩

/-- The routines of a name that a call may mean. -/
theorem candidateLevels_callable (hn : a.Nested) {level : List Callee}
    (hl : level ∈ a.candidateLevels scope name) {c : Callee} (hc : c ∈ level) :
    a.Callable scope c := by
  obtain ⟨s, hs, h⟩ := List.mem_filterMap.mp hl
  dsimp only at h
  split at h
  · cases h
  · cases h
    rcases mem_addNew.mp hc with hc | hc
    · exact callable_declared hn (.inl hs) hc
    · obtain ⟨i, hi, hc⟩ := List.mem_flatMap.mp hc
      cases i with
      | library id =>
        obtain ⟨n, hn', rfl⟩ := List.mem_map.mp hc
        obtain ⟨r, hr, he⟩ := List.mem_filterMap.mp hn'
        have hmem := library_mem (.inl (List.ne_nil_of_mem hr))
        dsimp only at he
        split at he
        · cases he
          exact hn.natives _ hmem r hr
        · cases he
      | unit u => exact callable_declared hn (.inr ((hn.sound s).imports u hi).2) hc

end Pascal.Arena
