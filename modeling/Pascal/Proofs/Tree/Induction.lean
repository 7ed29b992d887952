import Pascal.Tree

/-!
# Induction over trees

A property of expressions is shown together with one of places and one of arguments. Lists of parts
come with the property of each part.
-/

namespace Pascal

theorem Expr.induction {P : Expr → Prop} {Q : Place → Prop} {R : Arg → Prop}
    (literal : ∀ v n, P (.literal v n))
    (place : ∀ p n, Q p → P (.place p n))
    (array : ∀ lower items n, (∀ e ∈ items, P e) → P (.array lower items n))
    (range : ∀ low high n, P low → P high → P (.range low high n))
    (address : ∀ p n, Q p → P (.address p n))
    (unary : ∀ op e n, P e → P (.unary op e n))
    (binary : ∀ op l r n, P l → P r → P (.binary op l r n))
    (convert : ∀ c e n, P e → P (.convert c e n))
    (format : ∀ v w n, P v → P w → P (.format v w none n))
    (formatReal : ∀ v w p n, P v → P w → P p → P (.format v w (some p) n))
    (call : ∀ callee name args n, (∀ a ∈ args, R a) → P (.call callee name args n))
    (var : ∀ v, Q (.var v))
    (element : ∀ base index, Q base → P index → Q (.element base index))
    (charAt : ∀ base index, Q base → P index → Q (.charAt base index))
    (deref : ∀ pointer, P pointer → Q (.deref pointer))
    (value : ∀ e, P e → R (.value e))
    (reference : ∀ p, Q p → R (.reference p)) :
    (∀ e, P e) ∧ (∀ p, Q p) ∧ ∀ a, R a := by
  have hformat : ∀ (v w : Expr) (p : Option Expr) n, P v → P w → (∀ q, p = some q → P q) →
      P (.format v w p n) := by
    intro v w p n hv hw hp
    cases p with
    | none => exact format v w n hv hw
    | some q => exact formatReal v w q n hv hw (hp q rfl)
  have hnil : ∀ {α : Type} {S : α → Prop}, ∀ x ∈ ([] : List α), S x := by simp
  have hcons : ∀ {α : Type} {S : α → Prop} (x : α) (xs : List α), S x → (∀ y ∈ xs, S y) →
      ∀ y ∈ x :: xs, S y := fun x xs h hs => List.forall_mem_cons.mpr ⟨h, hs⟩
  have hnone : ∀ q : Expr, none = some q → P q := by simp
  have hsome : ∀ e : Expr, P e → ∀ q, some e = some q → P q := by
    rintro e h q ⟨⟩
    exact h
  refine ⟨fun e => ?_, fun p => ?_, fun a => ?_⟩
  · exact Expr.rec (motive_1 := P) (motive_2 := Q) (motive_3 := R)
      (motive_4 := fun es => ∀ e ∈ es, P e) (motive_5 := fun p => ∀ q, p = some q → P q)
      (motive_6 := fun as => ∀ a ∈ as, R a) literal place array range address unary binary convert
      hformat call var element charAt deref value reference hnil hcons hnone hsome hnil hcons e
  · exact Place.rec (motive_1 := P) (motive_2 := Q) (motive_3 := R)
      (motive_4 := fun es => ∀ e ∈ es, P e) (motive_5 := fun p => ∀ q, p = some q → P q)
      (motive_6 := fun as => ∀ a ∈ as, R a) literal place array range address unary binary convert
      hformat call var element charAt deref value reference hnil hcons hnone hsome hnil hcons p
  · exact Arg.rec (motive_1 := P) (motive_2 := Q) (motive_3 := R)
      (motive_4 := fun es => ∀ e ∈ es, P e) (motive_5 := fun p => ∀ q, p = some q → P q)
      (motive_6 := fun as => ∀ a ∈ as, R a) literal place array range address unary binary convert
      hformat call var element charAt deref value reference hnil hcons hnone hsome hnil hcons a

@[elab_as_elim]
theorem Stmt.induction {P : Stmt → Prop} (s : Stmt)
    (block : ∀ body pos, (∀ s ∈ body, P s) → P (.block body pos))
    (assign : ∀ target value pos, P (.assign target value pos))
    (call : ∀ callee name args pos, P (.call callee name args pos))
    (ifThen : ∀ condition yes no pos, P yes → (∀ s, no = some s → P s) →
      P (.ifThen condition yes no pos))
    (whileDo : ∀ condition body pos, P body → P (.whileDo condition body pos))
    (repeatUntil : ∀ body condition pos, (∀ s ∈ body, P s) → P (.repeatUntil body condition pos))
    (forDo : ∀ counter first direction last body pos, P body →
      P (.forDo counter first direction last body pos))
    (caseOf : ∀ selector arms otherwise pos, (∀ labels s, .mk labels s ∈ arms → P s) →
      (∀ s, otherwise = some s → P s) → P (.caseOf selector arms otherwise pos))
    (breakLoop : ∀ pos, P (.breakLoop pos))
    (continueLoop : ∀ pos, P (.continueLoop pos))
    (exitRoutine : ∀ pos, P (.exitRoutine pos))
    (new : ∀ target pointee pos, P (.new target pointee pos))
    (dispose : ∀ target pos, P (.dispose target pos))
    (empty : ∀ pos, P (.empty pos)) : P s := by
  refine Stmt.rec (motive_1 := P) (motive_2 := fun a => ∀ labels s, a = .mk labels s → P s)
    (motive_3 := fun ss => ∀ s ∈ ss, P s) (motive_4 := fun o => ∀ s, o = some s → P s)
    (motive_5 := fun as => ∀ labels s, .mk labels s ∈ as → P s) block assign call
    (fun c yes no pos => ifThen c yes no pos) whileDo repeatUntil forDo
    (fun sel arms o pos => caseOf sel arms o pos) breakLoop continueLoop exitRoutine new dispose empty
    ?_ ?_ ?_ ?_ ?_ ?_ ?_ s
  · rintro labels body h labels' s ⟨⟩
    exact h
  · simp
  · exact fun s ss h hs => List.forall_mem_cons.mpr ⟨h, hs⟩
  · simp
  · rintro s h s' ⟨⟩
    exact h
  · simp
  · intro a as h hs labels s hm
    rcases List.mem_cons.mp hm with rfl | hm
    · exact h labels s rfl
    · exact hs labels s hm

end Pascal
