import Pascal.Proofs.Typing.Stmt

/-! # What holds of all parts of a typed tree -/

namespace Pascal

variable {d : Discipline} {a : Arena} {f : Expr → Bool} {g : Place → Bool} {h : Stmt → Bool}

section Expressions

variable (hf : ∀ e, e.Typed d a → f e) (hr : ∀ low high n, f (.range low high n))
  (hg : ∀ p t, p.Typed d a t → g p)
include hf hr hg

private theorem all_of_typed :
    (∀ e : Expr, (e.Typed d a → e.all f g) ∧ ∀ element, e.ItemTyped d a element → e.all f g) ∧
    (∀ (p : Place) t, p.Typed d a t → p.all f g) ∧
    ∀ (arg : Arg) t mode, arg.Typed d a t mode → arg.all f g := by
  have hitem : ∀ {e : Expr}, (∀ low high n, e ≠ .range low high n) →
      (e.Typed d a → e.all f g) →
      (e.Typed d a → e.all f g) ∧ ∀ element, e.ItemTyped d a element → e.all f g :=
    fun hne he => ⟨he, fun _ ht => he (ht.typed hne).1⟩
  refine Expr.induction ?literal ?place ?array ?range ?address ?unary ?binary ?convert ?format
    ?formatReal ?call ?var ?element ?charAt ?deref ?value ?reference
  case literal => exact fun v n => hitem (by simp) fun ht => hf _ ht
  case place =>
    refine fun p n ih => hitem (by simp) fun ht => ?_
    obtain ⟨t, hp, -⟩ := id ht
    simp [Expr.all, hf _ ht, ih t hp]
  case array =>
    refine fun lower items n ih => hitem (by simp) fun ht => ?_
    obtain ⟨element, r, -, -, hi, -⟩ := id ht
    have hitems : allExprs f g items := allExprs_iff.mpr fun e he =>
      (ih e he).2 element (itemsTyped_iff.mp hi e he)
    simp [Expr.all, hf _ ht, hitems]
  case range =>
    refine fun low high n ihl ihh => ⟨False.elim, ?_⟩
    rintro element ⟨-, hl, -, hh, -⟩
    simp [Expr.all, hr, ihl.1 hl, ihh.1 hh]
  case address =>
    refine fun p n ih => hitem (by simp) fun ht => ?_
    obtain ⟨t, hp, -⟩ := id ht
    simp [Expr.all, hf _ ht, ih t hp]
  case unary =>
    refine fun op e n ih => hitem (by simp) fun ht => ?_
    simp [Expr.all, hf _ ht, ih.1 ht.1]
  case binary =>
    refine fun op l r n ihl ihr => hitem (by simp) fun ht => ?_
    simp [Expr.all, hf _ ht, ihl.1 ht.1, ihr.1 ht.2.1]
  case convert =>
    refine fun c e n ih => hitem (by simp) fun ht => ?_
    simp [Expr.all, hf _ ht, ih.1 ht.1]
  case format =>
    refine fun v w n ihv ihw => hitem (by simp) fun ht => ?_
    have ht' := ht
    rw [Expr.Typed] at ht'
    simp [Expr.all, hf _ ht, ihv.1 ht'.1, ihw.1 ht'.2.1]
  case formatReal =>
    refine fun v w p n ihv ihw ihp => hitem (by simp) fun ht => ?_
    have ht' := ht
    rw [Expr.Typed] at ht'
    simp [Expr.all, hf _ ht, ihv.1 ht'.1, ihw.1 ht'.2.1, ihp.1 ht'.2.2.2.1]
  case call =>
    refine fun callee name args n ih => hitem (by simp) fun ht => ?_
    have hargs : allArgs f g args := allArgs_iff.mpr fun arg hm => by
      obtain ⟨t, mode, harg⟩ := typed_of_argsTyped ht.1 arg hm
      exact ih arg hm t mode harg
    simp [Expr.all, hf _ ht, hargs]
  case var => exact fun v t ht => hg _ t ht
  case element =>
    intro base index ihb ihi t ht
    obtain ⟨hi, -, r, hb⟩ := id ht
    simp [Place.all, hg _ t ht, ihb _ hb, ihi.1 hi]
  case charAt =>
    intro base index ihb ihi t ht
    obtain ⟨hi, -, hb, -⟩ := id ht
    simp [Place.all, hg _ t ht, ihb _ hb, ihi.1 hi]
  case deref =>
    intro pointer ih t ht
    simp [Place.all, hg _ t ht, ih.1 ht.1]
  case value =>
    rintro e ih t mode ⟨-, he, -⟩
    exact ih.1 he
  case reference =>
    rintro p ih t mode ⟨-, u, hp, -⟩
    exact ih u hp

theorem Expr.Typed.all {e : Expr} (he : e.Typed d a) : e.all f g :=
  ((all_of_typed hf hr hg).1 e).1 he

theorem Place.Typed.all {p : Place} {t : Ty} (hp : p.Typed d a t) : p.all f g :=
  (all_of_typed hf hr hg).2.1 p t hp

theorem all_of_argsTyped {further : Option (Ty × ParamMode)} {args : List Arg}
    {params : List Parameter} (hargs : argsTyped d a further args params) : allArgs f g args :=
  allArgs_iff.mpr fun arg hm => by
    obtain ⟨t, mode, harg⟩ := typed_of_argsTyped hargs arg hm
    exact (all_of_typed hf hr hg).2.2 arg t mode harg

/-- What holds of all typed expressions, places and statements holds of all in a typed statement. -/
theorem Stmt.Typed.all (hh : ∀ s, s.Typed d a → h s) {s : Stmt} (hs : s.Typed d a) :
    s.all f g h := by
  have hself := hh s hs
  induction s using Stmt.induction with
  | block body pos ih =>
    have hbody := stmtsTyped_iff.mp hs
    have hall : allStmts f g h body := allStmts_iff.mpr fun s hm =>
      ih s hm (hbody s hm) (hh s (hbody s hm))
    simp [Stmt.all, hself, hall]
  | assign target value pos =>
    obtain ⟨hv, ht, -⟩ := hs
    simp [Stmt.all, hself, hv.all hf hr hg, ht.all hf hr hg]
  | call callee name args pos => simp [Stmt.all, hself, all_of_argsTyped hf hr hg hs]
  | ifThen condition yes no pos ihyes ihno =>
    obtain ⟨hc, -, hyes, hno⟩ := hs
    have hno : allOption f g h no := by
      cases no with
      | none => rfl
      | some s => exact ihno s rfl hno (hh s hno)
    simp [Stmt.all, hself, hc.all hf hr hg, ihyes hyes (hh yes hyes), hno]
  | whileDo condition body pos ih =>
    obtain ⟨hc, -, hbody⟩ := hs
    simp [Stmt.all, hself, hc.all hf hr hg, ih hbody (hh body hbody)]
  | repeatUntil body condition pos ih =>
    obtain ⟨hc, -, hbody⟩ := hs
    have hbody := stmtsTyped_iff.mp hbody
    have hall : allStmts f g h body := allStmts_iff.mpr fun s hm =>
      ih s hm (hbody s hm) (hh s (hbody s hm))
    simp [Stmt.all, hself, hc.all hf hr hg, hall]
  | forDo counter first direction last body pos ih =>
    obtain ⟨-, -, hcount, hfirst, hlast, -, hbody⟩ := hs
    simp [Stmt.all, hself, hcount.all hf hr hg, hfirst.all hf hr hg, hlast.all hf hr hg,
      ih hbody (hh body hbody)]
  | caseOf selector arms otherwise pos iharms ihotherwise =>
    obtain ⟨hsel, -, harms, hotherwise⟩ := hs
    have harms := armsTyped_iff.mp harms
    have hall : allArms f g h arms := allArms_iff.mpr fun labels body hm =>
      iharms labels body hm (harms labels body hm) (hh body (harms labels body hm))
    have hotherwise : allOption f g h otherwise := by
      cases otherwise with
      | none => rfl
      | some s => exact ihotherwise s rfl hotherwise (hh s hotherwise)
    simp [Stmt.all, hself, hsel.all hf hr hg, hall, hotherwise]
  | breakLoop | continueLoop | exitRoutine | empty => exact hself
  | new target pointee pos =>
    have ht : target.Typed d a (.pointer pointee) := hs
    simp [Stmt.all, hself, ht.all hf hr hg]
  | dispose target pos =>
    obtain ⟨t, ht⟩ := id hs
    simp [Stmt.all, hself, ht.all hf hr hg]

end Expressions

end Pascal
