import Pascal.Proofs.Scope.Nested
import Pascal.Proofs.Typing.Build

/-! # What a step of reading keeps -/

namespace Pascal.Arena

variable {a a' : Arena} {s : Nat}

/-- Every entity that is declared has a property. -/
def Holds (P : Entity → Prop) (a : Arena) : Prop :=
  ∀ s key e, (a.scope s).entity? key = some e → P e

/-- Declares variables one by one. -/
def declareEach (a : Arena) (s : Nat) (vs : List Variable) : Except ScopeError Arena :=
  vs.foldlM (fun a v => do return (← a.declareVariable s v).2) a

theorem declareVariables_eq {names : List (String × Position)} {ty : Ty} {initial : Option Value} :
    a.declareVariables s names ty initial =
      a.declareEach s (names.map fun (name, p) => ⟨name, ty, p, initial⟩) := by
  rw [declareEach, List.foldlM_map]
  rfl

theorem declareVariable_eq_ok {v : Variable} {r : VarRef × Arena}
    (h : a.declareVariable s v = .ok r) : a.declare s v.name v.pos (.var v) = .ok r.2 := by
  obtain ⟨a', hd, h⟩ := bind_eq_ok.mp h
  cases h
  exact hd

theorem Nested.declare (h : a.Nested) {name : String} {pos : Position} {entity : Entity}
    (hd : a.declare s name pos entity = .ok a') (hroutines : ∀ ids, entity = .routines ids →
      ∀ id ∈ ids, id < a.functions.size ∧ (a.function id).declaredIn = s)
    (hvar : ∀ v, entity = .var v → Text.lower v.name = Text.lower name) : a'.Nested := by
  obtain ⟨hf, rfl⟩ := declare_eq_ok hd
  refine h.modifyScope ⟨rfl, rfl, fun key v hv => ?_⟩ ((h.sound s).add hf hroutines hvar)
  rw [Scope.entity?_add hf, if_neg, hv]
  rintro rfl
  simp [Scope.entity?, hf] at hv

theorem entity?_declare {name : String} {pos : Position} {entity : Entity}
    (hs : s < a.scopes.size) (hd : a.declare s name pos entity = .ok a') (n : Nat) (key : String) :
    (a'.scope n).entity? key = if n = s ∧ key = Text.lower name then some entity
      else (a.scope n).entity? key := by
  obtain ⟨hf, rfl⟩ := declare_eq_ok hd
  rw [scope_modifyScope]
  by_cases hn : n = s
  · subst hn
    rw [if_pos ⟨rfl, hs⟩, Scope.entity?_add (d := ⟨Text.lower name, pos, entity⟩) hf]
    simp
  · simp [hn]

theorem size_declare {name : String} {pos : Position} {entity : Entity}
    (hd : a.declare s name pos entity = .ok a') : a'.scopes.size = a.scopes.size := by
  obtain ⟨-, rfl⟩ := declare_eq_ok hd
  simp

theorem Holds.declare {P : Entity → Prop} (h : a.Holds P) {name : String} {pos : Position}
    {entity : Entity} (hs : s < a.scopes.size) (hd : a.declare s name pos entity = .ok a')
    (he : P entity) : a'.Holds P := by
  intro n key e hn
  rw [entity?_declare hs hd] at hn
  split at hn
  · cases hn; exact he
  · exact h n key e hn

/-- The same libraries are known. -/
structure Knows (a a' : Arena) : Prop where
  natives : a'.natives = a.natives
  libraries : a'.libraries = a.libraries

theorem Knows.trans {a'' : Arena} (h : a.Knows a') (h' : a'.Knows a'') : a.Knows a'' :=
  ⟨h'.natives.trans h.natives, h'.libraries.trans h.libraries⟩

theorem Knows.declare {name : String} {pos : Position} {entity : Entity}
    (hd : a.declare s name pos entity = .ok a') : a.Knows a' := by
  obtain ⟨-, rfl⟩ := declare_eq_ok hd
  exact ⟨rfl, rfl⟩

theorem declareEach_cons {v : Variable} {vs : List Variable} (h : a.declareEach s (v :: vs) = .ok a') :
    ∃ a₁, a.declare s v.name v.pos (.var v) = .ok a₁ ∧ a₁.declareEach s vs = .ok a' := by
  rw [declareEach, List.foldlM_cons] at h
  obtain ⟨a₁, hv, hrest⟩ := bind_eq_ok.mp h
  obtain ⟨r, hr, hv⟩ := bind_eq_ok.mp hv
  cases hv
  exact ⟨r.2, declareVariable_eq_ok hr, hrest⟩

/-- What declaring variables one by one keeps, and what it adds. -/
structure DeclaresEach (a : Arena) (s : Nat) (vs : List Variable) (a' : Arena) : Prop where
  grows : a.Grows a'
  knows : a.Knows a'
  nested : a.Nested → a'.Nested
  functions : a'.functions = a.functions
  scopes : a'.scopes.size = a.scopes.size
  holds : ∀ P, a.Holds P → (∀ v ∈ vs, P (.var v)) → a'.Holds P
  declared : ∀ v ∈ vs, (a'.scope s).entity? (Text.lower v.name) = some (.var v)

theorem declareEach_eq_ok {vs : List Variable} (hs : s < a.scopes.size)
    (h : a.declareEach s vs = .ok a') : a.DeclaresEach s vs a' := by
  induction vs generalizing a with
  | nil =>
    cases h
    exact ⟨.refl _, ⟨rfl, rfl⟩, id, rfl, rfl, fun _ h _ => h, by simp⟩
  | cons v vs ih =>
    obtain ⟨a₁, hdecl, hrest⟩ := declareEach_cons h
    have ih := ih (by rwa [size_declare hdecl]) hrest
    have hfun : a₁.functions = a.functions := by
      obtain ⟨-, he⟩ := declare_eq_ok hdecl
      rw [he]
      rfl
    refine ⟨(Grows.declare hdecl).trans ih.grows, (Knows.declare hdecl).trans ih.knows,
      fun hn => ih.nested ?_, ih.functions.trans hfun,
      ih.scopes.trans (size_declare hdecl), fun P hP hvs => ?_, fun w hw => ?_⟩
    · refine hn.declare hdecl (by rintro ids ⟨⟩) ?_
      rintro v ⟨⟩
      rfl
    · refine ih.holds P (hP.declare hs hdecl (hvs v List.mem_cons_self)) fun w hw => ?_
      exact hvs w (List.mem_cons_of_mem _ hw)
    · rcases List.mem_cons.mp hw with rfl | hw
      · exact ih.grows.var (by rw [entity?_declare hs hdecl, if_pos ⟨rfl, rfl⟩])
      · exact ih.declared w hw

/-- A heading denotes an earlier routine, or it makes a new one. -/
theorem declareFunction_eq_ok {name : String} {sig : Signature} {p : Position} {id : Nat}
    (hs : s < a.scopes.size) (h : a.declareFunction s name sig p = .ok (id, a')) :
    (a' = a ∧ ∃ key ids, (a.scope s).entity? key = some (.routines ids) ∧ id ∈ ids) ∨
    (id = a.functions.size ∧ ∃ f : Scope → Scope,
      a' = (a.addFunction s name sig p).2.modifyScope s f ∧
      ((∃ d : Declaration, f = (·.add d) ∧ d.entity = .routines [id] ∧
        (a.scope s).find? d.name = none) ∨
      (∃ key ids, f = (·.setRoutines key (ids ++ [id])) ∧
        (a.scope s).entity? key = some (.routines ids)))) := by
  have hscope : (a.addFunction s name sig p).2.scope s = a.scope s := by
    rw [scope_addFunction, if_neg hs.ne]
  unfold declareFunction at h
  dsimp only at h
  split at h
  · cases h
  · split at h
    · next hf =>
      obtain ⟨a₁, hd, h⟩ := bind_eq_ok.mp h
      cases h
      obtain ⟨-, rfl⟩ := declare_eq_ok hd
      exact .inr ⟨rfl, _, rfl, .inl ⟨_, rfl, rfl, hf⟩⟩
    · next k p ids hf =>
      split at h
      · next id' hid =>
        split at h
        · cases h
        · split at h
          · cases h
          · cases h
            exact .inl ⟨rfl, Text.lower name, ids, by simp [Scope.entity?, hf],
              List.mem_of_find?_eq_some hid⟩
      · cases h
        exact .inr ⟨rfl, _, rfl, .inr ⟨_, ids, rfl, by simp [Scope.entity?, hf]⟩⟩
    · cases h

/-- What declaring the heading of a routine keeps, and what it adds. -/
structure DeclaresRoutine (a : Arena) (s : Nat) (sig : Signature) (id : Nat) (a' : Arena) :
    Prop where
  grows : a.Grows a'
  knows : a.Knows a'
  nested : a'.Nested
  bound : id < a'.functions.size
  old : ∀ n < a.functions.size, a'.function n = a.function n
  new : ∀ n < a'.functions.size, n < a.functions.size ∨ n = id ∧
    (a'.function n).signature = sig ∧ (a'.function n).body = none ∧
    (a'.scope (a'.function n).scope).declared = []
  scopes : ∀ n, a.scopes.size ≤ n → n < a'.scopes.size → ∃ id, (a'.scope n).kind = .function id
  holds : ∀ P, (∀ ids, P (.routines ids)) → a.Holds P → a'.Holds P

theorem Holds.addFunction {P : Entity → Prop} (h : a.Holds P) (name : String) (sig : Signature)
    (p : Position) : (a.addFunction s name sig p).2.Holds P := by
  intro n key e hn
  rw [scope_addFunction] at hn
  split at hn
  · simp [Scope.entity?, Scope.find?] at hn
  · exact h n key e hn

/-- Declaring a new routine under its name, alone or with others. -/
private theorem declaresRoutine_new (h : a.Nested) (hs : s < a.scopes.size) {name : String}
    {sig : Signature} {p : Position} {f : Scope → Scope}
    (hwithin : (a.scope s).Within (f (a.scope s)))
    (hsound : (f (a.scope s)).Sound (a.addFunction s name sig p).2 s)
    (hentity : ∀ key e, (f (a.scope s)).entity? key = some e →
      (∃ ids, e = .routines ids) ∨ (a.scope s).entity? key = some e) :
    a.DeclaresRoutine s sig a.functions.size ((a.addFunction s name sig p).2.modifyScope s f) := by
  have hscope : (a.addFunction s name sig p).2.scope s = a.scope s := by
    rw [scope_addFunction, if_neg hs.ne]
  have hsize : ((a.addFunction s name sig p).2.modifyScope s f).functions.size =
      a.functions.size + 1 := by simp [Arena.modifyScope, Arena.addFunction, push]
  have hfun : ∀ n, ((a.addFunction s name sig p).2.modifyScope s f).function n =
      (a.addFunction s name sig p).2.function n := fun _ => rfl
  rw [← hscope] at hwithin hsound
  refine ⟨(Grows.addFunction ..).trans (.modifyScope hwithin), ⟨rfl, rfl⟩,
    (h.addFunction hs name sig p).modifyScope hwithin hsound, by omega, ?_, ?_, ?_, ?_⟩
  · intro n hn
    rw [hfun, function_addFunction, if_neg hn.ne]
  · intro n hn
    rcases Nat.lt_or_ge n a.functions.size with hlt | hge
    · exact .inl hlt
    · obtain rfl : n = a.functions.size := by omega
      refine .inr ⟨rfl, ?_⟩
      rw [hfun, function_addFunction, if_pos rfl]
      refine ⟨rfl, rfl, ?_⟩
      rw [scope_modifyScope, if_neg (fun he => hs.ne he.1.symm), scope_addFunction, if_pos rfl]
  · intro n hge hn
    have hsize : ((a.addFunction s name sig p).2.modifyScope s f).scopes.size = a.scopes.size + 1 := by
      simp [Arena.addFunction, push]
    obtain rfl : n = a.scopes.size := by omega
    refine ⟨a.functions.size, ?_⟩
    rw [scope_modifyScope, if_neg (fun he => hs.ne he.1.symm), scope_addFunction, if_pos rfl]
  · intro P hr hP n key e hn
    rw [scope_modifyScope] at hn
    split at hn
    · rw [‹n = s ∧ _›.1, hscope] at hn
      rcases hentity key e hn with ⟨ids, rfl⟩ | he
      · exact hr ids
      · exact hP s key e he
    · exact hP.addFunction name sig p n key e hn

theorem declaresRoutine (h : a.Nested) (hs : s < a.scopes.size) {name : String} {sig : Signature}
    {p : Position} {id : Nat} (hd : a.declareFunction s name sig p = .ok (id, a')) :
    a.DeclaresRoutine s sig id a' := by
  have hg : a.Grows (a.addFunction s name sig p).2 := .addFunction ..
  have hself : ∀ ids, (∀ id ∈ ids, id < a.functions.size ∧ (a.function id).declaredIn = s) →
      ∀ id ∈ ids ++ [a.functions.size], id < (a.addFunction s name sig p).2.functions.size ∧
        ((a.addFunction s name sig p).2.function id).declaredIn = s := by
    intro ids hids id hid
    rcases List.mem_append.mp hid with hid | hid
    · obtain ⟨hlt, hin⟩ := hids id hid
      exact ⟨hlt.trans_le hg.functions, (hg.declaredIn hlt).trans hin⟩
    · obtain rfl := List.mem_singleton.mp hid
      rw [function_addFunction, if_pos rfl]
      exact ⟨by simp [Arena.addFunction, push], rfl⟩
  rcases declareFunction_eq_ok hs hd with ⟨rfl, key, ids, hids, hid⟩ | ⟨rfl, f, rfl, hf⟩
  · exact ⟨.refl _, ⟨rfl, rfl⟩, h, ((h.sound s).routines key ids hids id hid).1, fun _ _ => rfl,
      fun _ hn => .inl hn, fun n hle hlt => absurd hlt (by omega), fun _ _ h => h⟩
  · rcases hf with ⟨d, rfl, hd, hnone⟩ | ⟨key, ids, rfl, hids⟩
    · have hentity := Scope.entity?_add hnone
      refine declaresRoutine_new h hs ⟨rfl, rfl, fun key v hv => ?_⟩ ?_ fun key e he => ?_
      · rw [hentity, if_neg, hv]
        rintro rfl
        simp [Scope.entity?, hnone] at hv
      · refine ((h.sound s).grow hg).add hnone ?_ (by rw [hd]; rintro v ⟨⟩)
        rw [hd]
        rintro ids ⟨⟩
        exact hself [] (by simp)
      · rw [hentity] at he
        split at he
        · cases he; exact .inl ⟨_, hd⟩
        · exact .inr he
    · refine declaresRoutine_new h hs ⟨rfl, rfl, fun k v hv => ?_⟩ ?_ fun k e he => ?_
      · rw [Scope.entity?_setRoutines, if_neg, hv]
        rintro rfl
        rw [hids] at hv
        cases hv
      · exact ((h.sound s).grow hg).setRoutines (hself ids ((h.sound s).routines key ids hids))
      · rw [Scope.entity?_setRoutines] at he
        split at he
        · obtain ⟨_, -, rfl⟩ := Option.map_eq_some_iff.mp he
          exact .inl ⟨_, rfl⟩
        · exact .inr he

theorem declareParameters_eq_ok {id : Nat} (h : a.declareParameters id = .ok a') :
    ((a.scope (a.function id).scope).vars ≠ [] ∧ a' = a) ∨
      a.declareEach (a.function id).scope (a.function id).headed = .ok a' := by
  unfold declareParameters at h
  dsimp only at h
  split at h
  · next hv =>
    cases h
    exact .inl ⟨by simpa using hv, rfl⟩
  · obtain ⟨a₁, hparams, h⟩ := bind_eq_ok.mp h
    refine .inr ?_
    rw [declareEach, UserRoutine.headed, List.foldlM_append, List.foldlM_map]
    refine bind_eq_ok.mpr ⟨a₁, hparams, ?_⟩
    cases hr : (a.function id).signature.result with
    | none => rw [hr] at h; exact h
    | some ty =>
      rw [hr] at h
      simpa [List.foldlM_cons] using h

/-- What a heading keeps and adds, once its parameters and its result are declared as well. -/
structure DeclaresHeader (a : Arena) (sig : Signature) (id : Nat) (a' : Arena) : Prop where
  grows : a.Grows a'
  knows : a.Knows a'
  nested : a'.Nested
  headed : a.Headed → a'.Headed
  bound : id < a'.functions.size
  old : ∀ n < a.functions.size, a'.function n = a.function n
  new : ∀ n < a'.functions.size, n < a.functions.size ∨ n = id ∧
    (a'.function n).signature = sig ∧ (a'.function n).body = none
  scopes : ∀ n, a.scopes.size ≤ n → n < a'.scopes.size → ∃ id, (a'.scope n).kind = .function id
  holds : ∀ P, (∀ ids, P (.routines ids)) →
    (∀ v ∈ (a'.function id).headed, P (.var v)) → a.Holds P → a'.Holds P

theorem vars_eq_nil {sc : Scope} (h : sc.declared = []) : sc.vars = [] := by simp [Scope.vars, h]

theorem Grows.headed_eq (hg : a.Grows a') {id : Nat} (hid : id < a.functions.size) :
    (a'.function id).headed = (a.function id).headed := by
  have h : (a'.function id).heading.headed = (a.function id).heading.headed := by rw [hg.function id hid]
  exact h

/-- What a heading declared is still declared later. -/
theorem Grows.headed (hg : a.Grows a') {id : Nat} (hid : id < a.functions.size)
    (h : ∀ v ∈ (a.function id).headed,
      (a.scope (a.function id).scope).entity? (Text.lower v.name) = some (.var v)) :
    ∀ v ∈ (a'.function id).headed,
      (a'.scope (a'.function id).scope).entity? (Text.lower v.name) = some (.var v) := by
  rw [hg.headed_eq hid, hg.ownScope hid]
  exact fun v hv => hg.var (h v hv)

theorem declaresHeader (h : a.Nested) (hs : s < a.scopes.size) {name : String} {sig : Signature}
    {p : Position} {id : Nat} {a₁ : Arena} (hd : a.declareFunction s name sig p = .ok (id, a₁))
    (hp : a₁.declareParameters id = .ok a') : a.DeclaresHeader sig id a' := by
  have hr := declaresRoutine h hs hd
  rcases declareParameters_eq_ok hp with ⟨hvars, rfl⟩ | hp
  · refine ⟨hr.grows, hr.knows, hr.nested, fun hh n hn => ?_, hr.bound, hr.old, ?_, hr.scopes, ?_⟩
    · rcases hr.new n hn with hlt | ⟨rfl, -, -, hempty⟩
      · exact hr.grows.headed hlt (hh n hlt)
      · exact absurd (vars_eq_nil hempty) hvars
    · exact fun n hn => (hr.new n hn).imp_right fun h => ⟨h.1, h.2.1, h.2.2.1⟩
    · exact fun P hroutines _ => hr.holds P hroutines
  · have he := declareEach_eq_ok (hr.nested.own id hr.bound).1 hp
    have hfun : ∀ n, a'.function n = a₁.function n := by
      intro n
      rw [Arena.function, he.functions]
      rfl
    refine ⟨hr.grows.trans he.grows, hr.knows.trans he.knows, he.nested hr.nested, fun hh n hn => ?_,
      ?_, ?_, ?_, ?_, ?_⟩
    · rw [he.functions] at hn
      rcases hr.new n hn with hlt | ⟨rfl, -⟩
      · exact (hr.grows.trans he.grows).headed hlt (hh n hlt)
      · rw [hfun]
        exact he.declared
    · rw [he.functions]; exact hr.bound
    · exact fun n hn => (hfun n).trans (hr.old n hn)
    · intro n hn
      rw [he.functions] at hn
      rw [hfun]
      exact (hr.new n hn).imp_right fun h => ⟨h.1, h.2.1, h.2.2.1⟩
    · intro n hle hn
      rw [he.scopes] at hn
      obtain ⟨id', hkind⟩ := hr.scopes n hle hn
      exact ⟨id', (he.grows.kind hn).trans hkind⟩
    · intro P hroutines hvs hP
      rw [hfun] at hvs
      exact he.holds P (hr.holds P hroutines hP) hvs

/-- What making a library known adds. -/
structure AddsLibrary (a : Arena) (l : Library) (a' : Arena) : Prop where
  scopes : a'.scopes = a.scopes
  functions : a'.functions = a.functions
  natives : a'.natives = a.natives ++ l.routines.toArray
  libraries : ∃ known : LibraryScope, a'.libraries = a.libraries.push known ∧
    known.name = Text.lower l.name ∧
    (∀ r ∈ known.routines, r.2 < a.natives.size + l.routines.length) ∧
    (∀ c ∈ known.constants, (c.2.name, c.2.value, c.2.ty) ∈ l.constants) ∧
    ∀ t ∈ known.types, ∃ name, (name, t.2) ∈ l.types

private theorem addsLibrary_addLibrary (a : Arena) (l : Library) :
    a.AddsLibrary l (a.addLibrary l.name l.routines).2 where
  scopes := rfl
  functions := rfl
  natives := rfl
  libraries := by
    refine ⟨_, rfl, rfl, fun r hr => ?_, by simp, by simp⟩
    obtain ⟨⟨r', i⟩, hi, rfl⟩ := List.mem_map.mp hr
    have hi := List.snd_lt_of_mem_zipIdx hi
    exact Nat.add_lt_add_left hi _

private theorem modify_push {α : Type} (xs : Array α) (x : α) (f : α → α) :
    (xs.push x).modify xs.size f = xs.push (f x) := by
  ext i h₁ h₂
  · simp
  · simp only [Array.size_modify, Array.size_push] at h₁
    simp only [Array.getElem_modify, Array.getElem_push]
    split <;> split <;> first | rfl | omega

private theorem AddsLibrary.addConstant {l : Library} (h : a.AddsLibrary l a') {c : Constant}
    (hc : (c.name, c.value, c.ty) ∈ l.constants) :
    a.AddsLibrary l (a'.addLibraryConstant a.libraries.size c) where
  scopes := h.scopes
  functions := h.functions
  natives := h.natives
  libraries := by
    obtain ⟨known, hk, hname, hr, hcs, hts⟩ := h.libraries
    refine ⟨{ known with constants := (Text.lower c.name, c) :: known.constants }, ?_, hname, hr, ?_, hts⟩
    · simp only [addLibraryConstant, hk, modify_push]
    · simpa using ⟨hc, fun a b hab => hcs (a, b) hab⟩

private theorem AddsLibrary.addType {l : Library} (h : a.AddsLibrary l a') {name : String}
    {t : Ty} (ht : (name, t) ∈ l.types) :
    a.AddsLibrary l (a'.addLibraryType a.libraries.size name t) where
  scopes := h.scopes
  functions := h.functions
  natives := h.natives
  libraries := by
    obtain ⟨known, hk, hname, hr, hcs, hts⟩ := h.libraries
    refine ⟨{ known with types := (Text.lower name, t) :: known.types }, ?_, hname, hr, hcs, ?_⟩
    · simp only [addLibraryType, hk, modify_push]
    · simpa using ⟨⟨name, ht⟩, fun a b hab => hts (a, b) hab⟩

theorem addsLibrary (l : Library) : a.AddsLibrary l (a.withLibrary l) := by
  have hconstants : ∀ (cs : List (String × Value × Ty)) (p : Position) (a' : Arena),
      a.AddsLibrary l a' → (∀ c ∈ cs, c ∈ l.constants) → a.AddsLibrary l (cs.foldl
        (fun a' c => a'.addLibraryConstant a.libraries.size ⟨c.1, c.2.1, c.2.2, p⟩) a') := by
    intro cs p
    induction cs with
    | nil => exact fun a' h _ => h
    | cons c cs ih =>
      obtain ⟨name, v, ty⟩ := c
      intro a' h hcs
      exact ih _ (h.addConstant (c := ⟨name, v, ty, p⟩) (hcs _ List.mem_cons_self))
        fun c hc => hcs c (List.mem_cons_of_mem _ hc)
  have htypes : ∀ (ts : List (String × Ty)) (a' : Arena),
      a.AddsLibrary l a' → (∀ t ∈ ts, t ∈ l.types) → a.AddsLibrary l (ts.foldl
        (fun a' t => a'.addLibraryType a.libraries.size t.1 t.2) a') := by
    intro ts
    induction ts with
    | nil => exact fun a' h _ => h
    | cons t ts ih =>
      intro a' h hts
      exact ih _ (h.addType (hts t List.mem_cons_self)) fun t ht => hts t (List.mem_cons_of_mem _ ht)
  exact htypes l.types _ (hconstants l.constants (Position.start l.name) _
    (addsLibrary_addLibrary a l) fun _ h => h) fun _ h => h

section Steps

variable {ranges : Bool} {libraries : List Library}

theorem scope_withLibrary (l : Library) (s : Nat) : (a.withLibrary l).scope s = a.scope s := by
  rw [scope, (addsLibrary l).scopes, ← scope]

theorem function_withLibrary (l : Library) (id : Nat) :
    (a.withLibrary l).function id = a.function id := by
  rw [function, (addsLibrary l).functions, ← function]

theorem Grows.withLibrary (l : Library) : a.Grows (a.withLibrary l) := by
  have h := a.addsLibrary l
  refine ⟨by rw [h.scopes], fun s _ => ?_, by rw [h.functions], fun id _ => ?_, fun id r hr => ?_⟩
  · rw [scope_withLibrary]; exact .refl _
  · rw [function_withLibrary]
  · rw [h.natives, Array.getElem?_append_left (Array.getElem?_eq_some_iff.mp hr).1]
    exact hr

theorem Nested.withLibrary (h : a.Nested) (l : Library) : (a.withLibrary l).Nested where
  outer s := by rw [scope_withLibrary]; exact h.outer s
  owner s id := by
    rw [scope_withLibrary, function_withLibrary, (addsLibrary l).functions]
    exact h.owner s id
  own id := by
    rw [function_withLibrary, scope_withLibrary, (addsLibrary l).scopes, (addsLibrary l).functions]
    exact h.own id
  sound s := by rw [scope_withLibrary]; exact (h.sound s).grow (.withLibrary l)
  natives known hk r hr := by
    obtain ⟨new, hl, -, hnew, -⟩ := (addsLibrary l).libraries
    rw [(addsLibrary l).natives]
    simp only [Array.size_append, List.size_toArray]
    rw [hl] at hk
    rcases Array.mem_push.mp hk with hk | rfl
    · exact (h.natives known hk r hr).trans_le (Nat.le_add_right _ _)
    · exact hnew r hr

theorem Grows.addImport (s : Nat) (i : Import) : a.Grows (a.addImport s i) :=
  .modifyScope (by split <;> exact ⟨rfl, rfl, fun _ _ h => h⟩)

theorem Nested.addImport (h : a.Nested) {i : Import}
    (hi : ∀ u, i = .unit u → u < a.scopes.size ∧ (a.scope u).kind = .unit) :
    (a.addImport s i).Nested :=
  h.modifyScope (by split <;> exact ⟨rfl, rfl, fun _ _ h => h⟩) ((h.sound s).withImport hi)

theorem entity?_addImport (s n : Nat) (i : Import) (key : String) :
    ((a.addImport s i).scope n).entity? key = (a.scope n).entity? key := by
  rw [addImport, scope_modifyScope]
  split
  · split <;> rfl
  · rfl

variable {ranges : Bool} {libraries : List Library}

/-- What every step of declaring keeps. Only routines get new scopes. -/
structure Kept (a a' : Arena) : Prop where
  grows : a.Grows a'
  nested : a'.Nested
  headed : a.Headed → a'.Headed
  scopes : ∀ n, a.scopes.size ≤ n → n < a'.scopes.size → ∃ id, (a'.scope n).kind = .function id
  knows : a.Knows a'

private theorem Kept.of_sizes (hg : a.Grows a') (hn : a'.Nested)
    (hf : a'.functions.size = a.functions.size) (hs : a'.scopes.size = a.scopes.size)
    (hk : a.Knows a') : a.Kept a' where
  grows := hg
  nested := hn
  knows := hk
  headed hh n hlt := hg.headed (hf ▸ hlt) (hh n (hf ▸ hlt))
  scopes n hle hlt := absurd hlt (by omega)

theorem Declares.kept (hn : a.Nested) (h : Declares ranges a a') : a.Kept a' := by
  cases h with
  | vars hs _ _ h =>
    rw [declareVariables_eq] at h
    have he := declareEach_eq_ok hs h
    exact .of_sizes he.grows (he.nested hn) (congrArg Array.size he.functions) he.scopes he.knows
  | constant _ _ _ h =>
    refine .of_sizes (.declare h) (hn.declare h (by simp) (by simp)) ?_ (size_declare h) (.declare h)
    obtain ⟨-, rfl⟩ := declare_eq_ok h
    rfl
  | type _ _ h =>
    refine .of_sizes (.declare h) (hn.declare h (by simp) (by simp)) ?_ (size_declare h) (.declare h)
    obtain ⟨-, rfl⟩ := declare_eq_ok h
    rfl
  | header hs _ _ h h' =>
    have he := declaresHeader hn hs h h'
    exact ⟨he.grows, he.nested, he.headed, he.scopes, he.knows⟩
  | body =>
    exact .of_sizes (.modifyFunction rfl) (hn.modifyFunction rfl) (by simp [Arena.modifyFunction]) rfl
      ⟨rfl, rfl⟩

theorem Extends.grows (hn : a.Nested) (h : Extends ranges libraries a a') : a.Grows a' := by
  cases h with
  | scope => exact .push ..
  | library l => exact .withLibrary l
  | importLibrary => exact .addImport ..
  | importUnit => exact .addImport ..
  | declares h => exact (h.kept hn).grows

theorem Extends.nested (hn : a.Nested) (h : Extends ranges libraries a a') : a'.Nested := by
  cases h with
  | scope h => exact hn.push h
  | library l => exact hn.withLibrary l
  | importLibrary => exact hn.addImport (by simp)
  | importUnit h hkind => exact hn.addImport (by rintro u ⟨⟩; exact ⟨h, hkind⟩)
  | declares h => exact (h.kept hn).nested

theorem Extends.headed (hn : a.Nested) (hh : a.Headed) (h : Extends ranges libraries a a') :
    a'.Headed := by
  have hkeep : a'.functions.size = a.functions.size → a'.Headed := fun hsize n hlt =>
    (h.grows hn).headed (hsize ▸ hlt) (hh n (hsize ▸ hlt))
  cases h with
  | scope => exact hkeep rfl
  | library l => exact hkeep (congrArg Array.size (addsLibrary l).functions)
  | importLibrary => exact hkeep rfl
  | importUnit => exact hkeep rfl
  | declares h => exact (h.kept hn).headed hh

/-- Every library that is known is one of some libraries. -/
def Lists (libraries : List Library) (a : Arena) : Prop :=
  ∀ known ∈ a.libraries, ∃ l ∈ libraries, known.name = Text.lower l.name

theorem Extends.lists (hn : a.Nested) (hl : a.Lists libraries) (h : Extends ranges libraries a a') :
    a'.Lists libraries := by
  cases h with
  | scope => exact hl
  | library l hmem =>
    intro known hk
    obtain ⟨new, hlibs, hname, -⟩ := (addsLibrary (a := a) l).libraries
    rw [hlibs] at hk
    rcases Array.mem_push.mp hk with hk | rfl
    · exact hl known hk
    · exact ⟨l, hmem, hname⟩
  | importLibrary => exact hl
  | importUnit => exact hl
  | declares h =>
    intro known hk
    rw [(h.kept hn).knows.libraries] at hk
    exact hl known hk

end Steps

end Pascal.Arena
