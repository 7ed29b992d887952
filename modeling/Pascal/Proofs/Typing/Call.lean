import Pascal.Proofs.Signature.Choice
import Pascal.Proofs.Typing.Sound

/-!
# Calls that are resolved are typed

A call means a routine that can be called where it stands, and its arguments have the types and the
modes of the parameters.
-/

namespace Pascal

variable {d : Discipline} {a : Arena}

namespace Signature

theorem match?_eq_some {s : Signature} {args : List Shape} {m : Match} (h : s.match? args = some m) :
    ∃ m', bindAll s.split.2 s.split.1 args = some m' ∧ m.bindings = m'.bindings := by
  rw [match?] at h
  obtain ⟨m', hm, rfl⟩ := Option.map_eq_some_iff.mp h
  refine ⟨m', hm, ?_⟩
  split <;> rfl

/-- How an argument can be bound to a parameter. -/
theorem bind_eq_some {ty : Ty} {mode : ParamMode} {arg : Shape} {cost : Nat} {b : Binding}
    (h : bind ty mode arg = some (cost, b)) :
    (mode = .var ∧ b = .reference ∧ (ty = .any ∨ arg.ty.fits ty)) ∨
      (mode ≠ .var ∧ b = .value ty) := by
  have hvalue : ((Conversion.between? arg.ty ty).map fun c => (c.cost, Binding.value ty)) =
      some (cost, b) → b = .value ty := by
    intro h
    obtain ⟨c, -, he⟩ := Option.map_eq_some_iff.mp h
    cases he
    rfl
  cases mode with
  | var =>
    simp only [bind] at h
    split at h
    · cases h
    · split at h
      · next hany =>
        cases h
        have hany : ty = .any := by
          cases ty <;> first | rfl | simp [Ty.isAny] at hany
        exact .inl ⟨rfl, rfl, .inl hany⟩
      · split at h <;> cases h
        next hfits => exact .inl ⟨rfl, rfl, .inr hfits⟩
  | value => exact .inr ⟨by simp, hvalue h⟩
  | const => exact .inr ⟨by simp, hvalue h⟩

theorem length_bindAll {further : Option (Ty × ParamMode)} {params : List Parameter}
    {es : List Expr} {m : Match} (h : bindAll further params (es.map Expr.shape) = some m) :
    m.bindings.length = es.length := by
  induction es generalizing params m with
  | nil => cases params <;> cases h; rfl
  | cons e es ih =>
    cases params with
    | nil =>
      cases further with
      | none => cases h
      | some f =>
        obtain ⟨_, -, h⟩ := Option.bind_eq_some_iff.mp h
        obtain ⟨m', hm, h⟩ := Option.bind_eq_some_iff.mp h
        cases h
        simp [ih hm]
    | cons p params =>
      obtain ⟨_, -, h⟩ := Option.bind_eq_some_iff.mp h
      obtain ⟨m', hm, h⟩ := Option.bind_eq_some_iff.mp h
      cases h
      simp [ih hm]

/-- The parameters and the results that a discipline allows. -/
structure Tame (d : Discipline) (s : Signature) : Prop where
  params : ∀ p ∈ s.split.1, p.ty.Tame d
  further : ∀ ty mode, s.split.2 = some (ty, mode) → ty.Tame d
  result : ∀ ty, s.result = some ty → ty.Tame d

end Signature

namespace Arena

theorem chooseCallee_eq_ok {name : String} {shapes : List Shape} {pos : Position}
    {levels : List (List Callee)} {callee : Callee} {m : Match}
    (h : a.chooseCallee name shapes pos levels = .ok (callee, m)) :
    (∃ level ∈ levels, callee ∈ level) ∧ (a.signature callee).match? shapes = some m := by
  induction levels with
  | nil => cases h
  | cons level levels ih =>
    rw [chooseCallee] at h
    split at h
    · next found hf =>
      cases h
      obtain ⟨s, hs, hm⟩ := Signature.applies_of_choose hf
      obtain ⟨c, hc, he⟩ := List.mem_map.mp hs
      cases he
      exact ⟨⟨level, List.mem_cons_self, hc⟩, hm⟩
    · cases h
    · obtain ⟨⟨level', hl, hc⟩, hm⟩ := ih h
      exact ⟨⟨level', List.mem_cons_of_mem _ hl, hc⟩, hm⟩

/-- What a call is resolved to can be called, and its arguments are bound to its parameters. -/
theorem resolveCall_eq_ok (hn : a.Nested) {scope : Nat} {name : String} {args : List Expr}
    {pos : Position} {callee : Callee} {bound : List Arg} {result : Option Ty}
    (h : a.resolveCall scope name args pos = .ok (callee, bound, result)) :
    a.Callable scope callee ∧ result = (a.signature callee).result ∧
      ∃ m, Signature.bindAll (a.signature callee).split.2 (a.signature callee).split.1
        (args.map Expr.shape) = some m ∧ Expr.boundAll name args m.bindings = .ok bound := by
  obtain ⟨⟨c, m⟩, hc, h⟩ := bind_eq_ok.mp h
  obtain ⟨as, hb, h⟩ := bind_eq_ok.mp h
  cases h
  obtain ⟨⟨level, hl, hmem⟩, hm⟩ := chooseCallee_eq_ok hc
  obtain ⟨m', hm', hbindings⟩ := Signature.match?_eq_some hm
  exact ⟨candidateLevels_callable hn hl hmem, rfl, m', hm', hbindings ▸ hb⟩

/-- A routine that could be called has the same signature later. -/
theorem Grows.signature_eq {a' : Arena} (hg : a.Grows a') {scope : Nat} {callee : Callee}
    (hc : a.Callable scope callee) : a'.signature callee = a.signature callee := by
  cases callee with
  | user id => exact hg.signature hc.1
  | native id =>
    have hlt : id < a.natives.size := hc
    have hr : a.natives[id]? = some a.natives[id] := Array.getElem?_eq_getElem hlt
    simp only [Arena.signature, hr, hg.native id _ hr]

end Arena

namespace Expr

/-- A typed expression that has the very type of the place it stands for. -/
structure Exact (d : Discipline) (a : Arena) (e : Expr) : Prop where
  typed : e.Typed d a
  place : ∀ p, e.place? = some p → p.Typed d a e.ty

private theorem typed_of_bind {e : Expr} (he : e.Exact d a) {ty : Ty}
    {mode : ParamMode} (ht : ty.Tame d) {cost : Nat} {b : Binding}
    (h : Signature.bind ty mode e.shape = some (cost, b)) {name : String} {arg : Arg}
    (harg : e.bound name b = .ok arg) : arg.Typed d a ty mode := by
  rcases Signature.bind_eq_some h with ⟨rfl, rfl, hfits⟩ | ⟨hmode, rfl⟩
  · simp only [Expr.bound] at harg
    split at harg <;> cases harg
    next p hp => exact ⟨rfl, e.ty, he.place p hp, hfits⟩
  · obtain ⟨e', he', harg⟩ := bind_eq_ok.mp harg
    cases harg
    exact ⟨hmode, he.typed.coerce ht he'⟩

/-- Arguments that were bound to parameters are typed. -/
theorem argsTyped_of_bindAll {further : Option (Ty × ParamMode)}
    {params : List Parameter} {es : List Expr} {m : Match} {name : String} {bound : List Arg}
    (h : Signature.bindAll further params (es.map Expr.shape) = some m)
    (hbound : Expr.boundAll name es m.bindings = .ok bound) (hes : ∀ e ∈ es, e.Exact d a)
    (hparams : ∀ p ∈ params, p.ty.Tame d)
    (hfurther : ∀ ty mode, further = some (ty, mode) → ty.Tame d) :
    argsTyped d a further bound params := by
  induction es generalizing params m bound with
  | nil =>
    cases params with
    | nil => cases h; cases hbound; rfl
    | cons p params => cases h
  | cons e es ih =>
    obtain ⟨he, hes⟩ := List.forall_mem_cons.mp hes
    cases params with
    | nil =>
      cases further with
      | none => cases h
      | some f =>
        obtain ⟨ty, mode⟩ := f
        obtain ⟨⟨cost, b⟩, hbind, h⟩ := Option.bind_eq_some_iff.mp h
        obtain ⟨m', hrest, h⟩ := Option.bind_eq_some_iff.mp h
        cases h
        obtain ⟨arg, harg, hbound⟩ := bind_eq_ok.mp hbound
        obtain ⟨rest, hb, hbound⟩ := bind_eq_ok.mp hbound
        cases hbound
        exact ⟨⟨ty, mode, rfl, typed_of_bind he (hfurther ty mode rfl) hbind harg⟩,
          ih hrest hb hes hparams⟩
    | cons p params =>
      obtain ⟨hp, hparams⟩ := List.forall_mem_cons.mp hparams
      obtain ⟨⟨cost, b⟩, hbind, h⟩ := Option.bind_eq_some_iff.mp h
      obtain ⟨m', hrest, h⟩ := Option.bind_eq_some_iff.mp h
      cases h
      obtain ⟨arg, harg, hbound⟩ := bind_eq_ok.mp hbound
      obtain ⟨rest, hb, hbound⟩ := bind_eq_ok.mp hbound
      cases hbound
      exact ⟨typed_of_bind he hp hbind harg, ih hrest hb hes hparams⟩

end Expr

/-- Each argument of a call is one for some parameter. -/
theorem typed_of_argsTyped {further : Option (Ty × ParamMode)} {args : List Arg}
    {params : List Parameter} (h : argsTyped d a further args params) :
    ∀ arg ∈ args, ∃ t mode, arg.Typed d a t mode := by
  induction args generalizing params with
  | nil => simp
  | cons arg args ih =>
    cases params with
    | nil =>
      obtain ⟨⟨t, mode, -, ht⟩, hrest⟩ := h
      exact List.forall_mem_cons.mpr ⟨⟨t, mode, ht⟩, ih hrest⟩
    | cons p params => exact List.forall_mem_cons.mpr ⟨⟨_, _, h.1⟩, ih h.2⟩

end Pascal
