import Pascal.Proofs.Sound.Plan

/-!
# Typed expressions give values of their types

One lemma for the plan of each kind of code that is evaluated. What the calls in a plan result in is what
the contract promises of them.
-/

namespace Pascal

variable {S : Setting} {cells : List Ty} {live : List Frame} {chain : Chain} {depth : Nat}

/-- What is known of a signature, also of that of a routine which does not exist. -/
theorem Arena.Sound.signature_tame {d : Discipline} {a : Arena} (h : a.Sound d) (callee : Callee) :
    (a.signature callee).Tame d := by
  have hempty : (⟨[], none⟩ : Signature).Tame d := .of_params (by simp) (by simp)
  cases callee with
  | user id =>
    by_cases hid : id < a.functions.size
    · exact (h.functions id hid).1
    · have hdefault : a.function id = default := by simp [Arena.function, hid]
      simp only [Arena.signature, hdefault]
      exact hempty
  | native id =>
    simp only [Arena.signature]
    cases hr : a.natives[id]? with
    | none => exact hempty
    | some r => exact h.natives id r hr

theorem BinaryOp.lazy_takes {op : BinaryOp} {l r t : Ty} (h : op.Takes l r t) (hl : op.isLazy l) :
    l = .boolean ∧ r = .boolean ∧ t = .boolean := by
  have hop : op = .and ∨ op = .or := by
    cases op <;> simp [isLazy] at hl ⊢
  have hboolean : l = .boolean := by
    cases l with
    | basic b => cases b <;> simp [isLazy, Ty.isBoolean] at hl ⊢
    | _ => simp [isLazy, Ty.isBoolean] at hl
  subst hboolean
  cases h with
  | shift h => rcases hop with rfl | rfl <;> simp at h
  | member => rcases hop with h | h <;> cases h
  | common h => rcases hop with rfl | rfl <;> cases h <;> exact ⟨rfl, rfl, rfl⟩

section Variables

variable {m : Machine} (hm : m.Typed S cells) (hchain : ∀ f ∈ chain, f ∈ m.active)
include hm hchain

/-- The storage of a variable is of its type, if frames fit the code. -/
theorem Machine.Typed.variableRef (v : VarRef) :
    (∀ r, S.env.variableRef chain v = .ok r → ∀ t, S.arena.varTy? v = some t →
      r.Shows S.discipline cells (S.arena.isReference v) t ∧
      (S.arena.isReference v = false → r.path = [])) ∧
    ∀ f, S.env.variableRef chain v = .error f → f.isScoping := by
  have hslot : ∀ {f : Frame} {r : Ref}, f ∈ S.env.globals ++ m.active → f.scope = v.scope →
      f.slot? v.name = some r → ∀ t, S.arena.varTy? v = some t →
      r.Shows S.discipline cells (S.arena.isReference v) t ∧
      (S.arena.isReference v = false → r.path = []) := by
    intro f r hf hscope hr t ht
    obtain ⟨u, hu, hshows⟩ := (hm.frames f hf).slot hr
    rw [hscope] at hu hshows
    cases ht.symm.trans hu
    exact hshows
  unfold Env.variableRef
  cases hfind : chain.find? (·.scope == v.scope) with
  | some f =>
    have hf := List.mem_append_right S.env.globals (hchain f (List.mem_of_find?_eq_some hfind))
    have hscope : f.scope = v.scope := by simpa using List.find?_some hfind
    dsimp only
    cases hr : f.slot? v.name with
    | some r => exact ⟨fun r' he => Except.ok.inj he ▸ hslot hf hscope hr, fun f he => by cases he⟩
    | none => exact ⟨fun r' he => (by cases he), fun f he => Except.error.inj he ▸ rfl⟩
  | none =>
    dsimp only
    cases hr : (S.env.globals.find? (·.scope == v.scope)).bind (·.slot? v.name) with
    | some r =>
      obtain ⟨f, hfind, hr⟩ := Option.bind_eq_some_iff.mp hr
      have hf := List.mem_append_left m.active (List.mem_of_find?_eq_some hfind)
      have hscope : f.scope = v.scope := by simpa using List.find?_some hfind
      exact ⟨fun r' he => Except.ok.inj he ▸ hslot hf hscope hr, fun f he => by cases he⟩
    | none => exact ⟨fun r' he => (by cases he), fun f he => Except.error.inj he ▸ rfl⟩

end Variables

/-- An item has the element type. -/
theorem Expr.ItemTyped.ty {d : Discipline} {a : Arena} {element : Ty} {e : Expr}
    (h : e.ItemTyped d a element) : e.ty = element := by
  cases e with
  | range low high n => exact h.2.2.2.2.2
  | _ => exact h.2

/-- A range gives ordinals of the type of its ends. Ends that are no ordinals have no range. -/
theorem Value.expandRange_lawful {d : Discipline} {v w : Value} {t : Ty} (hv : v.HasType cells t)
    (hd : d.takesRanges) :
    (∀ vs, expandRange v w = .ok vs → ∀ x ∈ vs, x.HasType cells t) ∧
      ∀ f, expandRange v w = .error f → f.Lawful d := by
  have hordinal : ∀ {v : Value} {f : Fault}, v.asOrdinal = .error f → f.Lawful d := by
    intro v f h
    cases v <;> cases h <;> exact .inr (.inr ⟨rfl, hd⟩)
  refine ⟨fun vs h x hx => (expandRange_eq_ok h hv x hx).1, fun f h => ?_⟩
  unfold expandRange at h
  cases hfirst : v.asOrdinal with
  | error f' =>
    rw [hfirst] at h
    cases h
    exact hordinal hfirst
  | ok first =>
    cases hlast : w.asOrdinal with
    | error f' =>
      rw [hfirst, hlast] at h
      cases h
      exact hordinal hlast
    | ok last =>
      obtain ⟨b, hb, ho⟩ := asOrdinal_eq_ok hfirst
      have hgives := ordinalsFrom_gives hb ho (last - first + 1).toNat first [] (by simp)
      rw [hfirst, hlast] at h
      rw [show v.ordinalsFrom first [] (last - first + 1).toNat = .error f from h] at hgives
      exact Fault.Regular.lawful hgives

section Plans

variable (hS : S.Sound) (hchain : ∀ f ∈ chain, f ∈ live)

namespace Plan.Sound

/-- A value of an ordinal type is one. -/
theorem ordinal {v : Value} {t : Ty} (h : v.HasType cells (t.outline S.discipline.bounds))
    (ht : t.isOrdinal) :
    (Plan.action (Run.liftFault v.asOrdinal)).Sound S live cells fun _ _ => True := by
  cases t with
  | basic b =>
    obtain ⟨n, hn⟩ := Value.asOrdinal_of_basic h ht
    exact gives (P := fun _ _ => True) (.of_eq hn trivial)
  | _ => cases ht

end Plan.Sound

theorem Ty.isOrdinal_of_isIntegral {t : Ty} (h : t.isIntegral) : t.isOrdinal := by
  cases t with
  | basic b => cases b <;> first | rfl | cases h
  | _ => cases h

include hchain

/-- A condition is a truth value. -/
theorem planTruth_sound {condition : Expr} (hc : condition.Typed S.discipline S.arena)
    (hty : condition.ty = .boolean) :
    (planTruth depth chain condition).Sound S live cells fun _ _ => True := by
  refine .bind (.enter hchain hc) fun cells' v _ hv => ?_
  rw [Code.Results, hty] at hv
  obtain ⟨b, rfl⟩ := Value.eq_boolean hv
  exact .gives (P := fun _ _ => True) trivial

include hS in
/-- A typed expression gives a value of its type. -/
theorem Expr.plan_sound {e : Expr} (he : e.Typed S.discipline S.arena) :
    (e.plan depth chain).Sound S live cells fun cells' v =>
      v.HasType cells' (e.ty.outline S.discipline.bounds) := by
  cases e with
  | literal v n => exact .pure (he.2.2.mono List.nil_prefix)
  | range low high n => exact he.elim
  | place p n =>
    obtain ⟨t, hp, hb⟩ := he
    refine .bind (.enter (c := .place p) hchain ⟨t, hp⟩) fun cells' r _ hr => ?_
    exact .mono (.get (hr t hp)) fun _ _ _ hv => hb.hasType hp.tame hv
  | array lower items n =>
    obtain ⟨element, r, ht, ha, hitems, hb⟩ := he
    refine .bind (.enter (c := .items items) hchain ⟨element, hitems⟩) fun cells' vs _ hvs => .pure ?_
    obtain ⟨hvs, hlength⟩ := hvs element hitems
    refine hb.hasType (Ty.Tame.array.mpr ht) ⟨lower, vs, rfl, ?_, hvs⟩
    cases hbounds : S.discipline.bounds with
    | false => exact fun h => by cases h
    | true =>
      rw [if_pos rfl, hlength hbounds]
      exact ha hbounds
  | address p n =>
    obtain ⟨t, hp, ht, hb⟩ := he
    refine .bind (.enter (c := .place p) hchain ⟨t, hp⟩) fun cells' r _ hr => .pure ?_
    refine hb.hasType ht ⟨some r, rfl, fun r' hr' => ?_⟩
    cases hr'
    exact (hr t hp).exact fun hbounds => .inl (ht.points hbounds)
  | unary op e n =>
    obtain ⟨he, hop, hb⟩ := he
    refine .bind (.enter (c := .expr e) hchain he) fun cells' v _ hv => .gives ?_
    obtain ⟨b, hty⟩ := hop.basic
    have hv : v.HasType cells' (e.ty.outline S.discipline.bounds) := hv
    have htame := he.tame
    rw [hty] at hop hv htame hb
    exact (Value.unary_gives hop hv).mono fun w hw => hb.hasType htame hw
  | binary op l r n =>
    obtain ⟨hl, hr, t, hop, hb⟩ := he
    refine .bind (.enter (c := .expr l) hchain hl) fun cells₁ v _ hv => ?_
    have hv : v.HasType cells₁ (l.ty.outline S.discipline.bounds) := hv
    by_cases hlazy : op.isLazy l.ty
    · rw [if_pos hlazy]
      obtain ⟨hlty, hrty, rfl⟩ := BinaryOp.lazy_takes hop hlazy
      rw [hlty] at hv
      obtain ⟨x, rfl⟩ := Value.eq_boolean hv
      refine .bind (.gives (P := fun _ _ => True) trivial) fun cells₂ x' _ _ => ?_
      split
      · exact .pure (hb.hasType (.basic _) rfl)
      · refine .bind (.enter (c := .expr r) hchain hr) fun cells₃ w _ hw => ?_
        rw [Code.Results, hrty] at hw
        obtain ⟨y, rfl⟩ := Value.eq_boolean hw
        exact .bind (.gives (P := fun _ _ => True) trivial) fun _ _ _ _ =>
          .pure (hb.hasType (.basic _) rfl)
    · rw [if_neg hlazy]
      refine .bind (.holding (.enter (c := .expr r) hchain hr)) fun cells₂ w hc hw => .gives ?_
      exact (Value.binary_gives hop (hv.mono hc) hw).mono fun x hx =>
        hb.hasType (hop.tame hl.tame) hx
  | convert c e n =>
    obtain ⟨he, t, hc, ht, hb⟩ := he
    refine .bind (.enter (c := .expr e) hchain he) fun cells' v _ hv => .gives ?_
    exact (Conversion.apply_gives (Conversion.converts hc) he.tame ht hv).mono fun w hw =>
      hb.hasType ht hw
  | format v w p n =>
    cases p with
    | none =>
      rw [Expr.Typed] at he
      obtain ⟨hv, hw, hwty, hb⟩ := he
      refine .bind (.enter (c := .expr v) hchain hv) fun cells₁ x _ _ => ?_
      refine .bind (.holding (.enter (c := .expr w) hchain hw)) fun cells₂ width _ hwidth => ?_
      rw [Code.Results, hwty] at hwidth
      exact .mono (.format hwidth (by simp)) fun _ _ _ ht => hb.hasType (.basic _) ht
    | some p =>
      rw [Expr.Typed] at he
      obtain ⟨hv, hw, hwty, hp, hpty, hb⟩ := he
      refine .bind (.enter (c := .expr v) hchain hv) fun cells₁ x _ _ => ?_
      refine .bind (.holding (.enter (c := .expr w) hchain hw)) fun cells₂ width _ hwidth => ?_
      refine .bind (.holding (.enter (c := .expr p) hchain hp)) fun cells₃ places hc hplaces => ?_
      rw [Code.Results, hwty] at hwidth
      rw [Code.Results, hpty] at hplaces
      refine .mono (.format (hwidth.mono hc) ?_) fun _ _ _ ht => hb.hasType (.basic _) ht
      rintro q ⟨⟩
      exact hplaces
  | call callee name args n =>
    obtain ⟨hargs, t, hresult, ht, hb⟩ := he
    have hsig := hS.arena.signature_tame callee
    refine .bind (.enter (c := .args args) hchain ⟨_, _, hargs⟩) fun cells₁ passed _ hpassed => ?_
    have hpassed := passedTyped_of_gives hpassed hargs hsig.params hsig.further
    refine .bind (.enter (c := .call callee passed) hchain hpassed) fun cells₂ result _ hgiven => ?_
    obtain ⟨v, rfl, hv⟩ := hgiven t hresult
    exact .pure (hb.hasType ht hv)

/-- A typed place is storage of its type. -/
theorem Place.plan_sound {p : Place} {t : Ty} (hp : p.Typed S.discipline S.arena t) :
    (p.plan S.env depth chain).Sound S live cells fun cells' r =>
      r.Shows S.discipline cells' (p.isView S.arena) t := by
  cases p with
  | var v =>
    refine .action fun m ha hm => ?_
    have hactive : ∀ f ∈ chain, f ∈ m.active := ha ▸ hchain
    obtain ⟨hok, herror⟩ := hm.variableRef hactive v
    cases hr : S.env.variableRef chain v with
    | ok r => exact .ok ha hm (hok r hr t hp.1).1
    | error f => exact .fault ha hm (Fault.lawful_of_isScoping (herror f hr))
  | element base index =>
    obtain ⟨hi, hty, range, hb⟩ := hp
    refine .bind (.enter (c := .expr index) hchain hi) fun cells₁ v _ hv => ?_
    refine .bind (.ordinal hv (Ty.isOrdinal_of_isIntegral hty)) fun cells₂ i _ _ => ?_
    exact .bind (.enter (c := .place base) hchain ⟨_, hb⟩) fun cells₃ r _ hr =>
      .pure ((hr _ hb).element i)
  | charAt base index =>
    obtain ⟨hi, hty, hb, rfl⟩ := hp
    refine .bind (.enter (c := .expr index) hchain hi) fun cells₁ v _ hv => ?_
    refine .bind (.ordinal hv (Ty.isOrdinal_of_isIntegral hty)) fun cells₂ i _ _ => ?_
    exact .bind (.enter (c := .place base) hchain ⟨_, hb⟩) fun cells₃ r _ hr =>
      .pure ((hr _ hb).charAt i)
  | deref pointer =>
    obtain ⟨hp, hty⟩ := hp
    refine .bind (.enter (c := .expr pointer) hchain hp) fun cells₁ v _ hv => ?_
    rw [Code.Results, hty] at hv
    obtain ⟨target, rfl, htarget⟩ := hv
    cases target with
    | none => exact .fail trivial
    | some r => exact .pure (.of_hasType (htarget r rfl))

theorem planItems_sound {element : Ty} {es : List Expr}
    (hes : itemsTyped S.discipline S.arena element es) :
    (planItems depth chain es).Sound S live cells fun cells' vs =>
      (∀ v ∈ vs, v.HasType cells' (element.outline S.discipline.bounds)) ∧
      (S.discipline.bounds → vs.length = es.length) ∧ (es = [] → vs = []) := by
  cases es with
  | nil => exact .pure ⟨by simp, fun _ => rfl, fun _ => rfl⟩
  | cons e es =>
    by_cases hrange : ∃ low high n, e = .range low high n
    · obtain ⟨low, high, n, rfl⟩ := hrange
      obtain ⟨hd, hl, hlty, hh, hhty, -, hes⟩ := hes
      refine .bind (.enter (c := .expr low) hchain hl) fun cells₁ v _ hv => ?_
      refine .bind (.enter (c := .expr high) hchain hh) fun cells₂ w hc₂ hw => ?_
      rw [Code.Results, hlty] at hv
      have hv := hv.mono hc₂
      obtain ⟨hok, herror⟩ := Value.expandRange_lawful (w := w) hv hd
      refine .bind (.liftFault (P := fun cells' vs => ∀ x ∈ vs, x.HasType cells'
        (element.outline S.discipline.bounds)) hok herror) fun cells₃ vs _ hvs => ?_
      refine .bind (.enter (c := .items es) hchain ⟨element, hes⟩) fun cells₄ ws hc₄ hws =>
        .pure ⟨fun x hx => ?_, fun hb => (by rw [Discipline.not_bounds hd] at hb; cases hb), by simp⟩
      rcases List.mem_append.mp hx with hx | hx
      · exact (hvs x hx).mono hc₄
      · exact (hws element hes).1 x hx
    · have hne : ∀ low high n, e ≠ .range low high n := fun low high n h => hrange ⟨low, high, n, h⟩
      obtain ⟨he, hes⟩ := List.forall_mem_cons.mp (itemsTyped_iff.mp hes)
      obtain ⟨he, hty⟩ := he.typed hne
      have hes := itemsTyped_iff.mpr hes
      rw [planItems]
      · refine .bind (.enter (c := .expr e) hchain he) fun cells₁ v _ hv => ?_
        rw [Code.Results, hty] at hv
        refine .bind (.holding (.enter (c := .items es) hchain ⟨element, hes⟩))
          fun cells₂ vs hc₂ hvs => .pure ?_
        obtain ⟨hvs, hlength⟩ := hvs element hes
        exact ⟨List.forall_mem_cons.mpr ⟨hv.mono hc₂, hvs⟩, fun hb => by simp [hlength hb], by simp⟩
      · exact hne

theorem Arg.plan_sound {x : Arg} {t : Ty} {mode : ParamMode}
    (hx : x.Typed S.discipline S.arena t mode) :
    (x.plan depth chain).Sound S live cells fun cells' => x.Gives S cells' := by
  cases x with
  | value e => exact .bind (.enter (c := .expr e) hchain hx.2.1) fun cells₁ v _ hv => .pure hv
  | reference p =>
    obtain ⟨-, u, hp, -⟩ := hx
    exact .bind (.enter (c := .place p) hchain ⟨u, hp⟩) fun cells₁ r _ hr => .pure hr

theorem planArgs_sound {xs : List Arg} {further : Option (Ty × ParamMode)} {params : List Parameter}
    (hxs : argsTyped S.discipline S.arena further xs params) :
    (planArgs depth chain xs).Sound S live cells fun cells' =>
      List.Forall₂ (Arg.Gives S cells') xs := by
  cases xs with
  | nil => exact .pure .nil
  | cons x xs =>
    obtain ⟨hx, hrest⟩ : (∃ t mode, x.Typed S.discipline S.arena t mode) ∧
        ∃ params, argsTyped S.discipline S.arena further xs params := by
      cases params with
      | nil =>
        obtain ⟨⟨t, mode, -, hx⟩, hrest⟩ := hxs
        exact ⟨⟨t, mode, hx⟩, _, hrest⟩
      | cons p params => exact ⟨⟨_, _, hxs.1⟩, _, hxs.2⟩
    refine .bind (.enter (c := .arg x) hchain hx) fun cells₁ passed _ hpassed => ?_
    exact .bind (.holding (.enter (c := .args xs) hchain ⟨_, hrest⟩)) fun cells₂ rest hc hgiven =>
      .pure (.cons (hpassed.mono hc) hgiven)

end Plans

end Pascal
