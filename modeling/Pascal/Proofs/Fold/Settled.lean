import Pascal.Proofs.Tree.All
import Pascal.Proofs.Typing.Stmt

/-!
# Folded trees

In a folded tree no node but a literal has a constant value, and no choice or loop is left that its
condition or its bounds already decide. Folding leaves these trees as they are, and gives no others.
-/

namespace Pascal

private theorem map_eq_self {α : Type} {f : α → α} {xs : List α} (h : ∀ x ∈ xs, f x = x) :
    xs.map f = xs :=
  (List.map_congr_left h).trans (List.map_id xs)

namespace Expr

/-! ## Nodes without a constant value -/

/-- What an item of an array constructor is computed from. -/
def ends : Expr → List Expr
  | range low high _ => [low, high]
  | e => [e]

/-- What the value of a node is computed from. -/
def operands : Expr → List Expr
  | unary _ e _ | convert _ e _ => [e]
  | binary _ l r _ => [l, r]
  | format v w p _ => v :: w :: p.toList
  | array _ items _ => items.flatMap ends
  | literal _ _ | range _ _ _ | place _ _ | address _ _ | call _ _ _ _ => []

/-- A range of literals whose values are a fault to list. -/
inductive FaultyRange : Expr → Prop
  | mk {low high : Expr} {n : Note} {v w : Value} {f : Fault} (hv : low.literal? = some v)
      (hw : high.literal? = some w) (h : Value.expandRange v w = .error f) :
      FaultyRange (range low high n)

/-- Why a node has to wait for the run: it has no value of its own, an operand is no literal, or the
operation on its literals is a fault. -/
inductive Deferred : Expr → Prop
  | place (p : Place) (n : Note) : Deferred (place p n)
  | address (p : Place) (n : Note) : Deferred (address p n)
  | range (low high : Expr) (n : Note) : Deferred (range low high n)
  | call (callee : Callee) (name : String) (args : List Arg) (n : Note) :
      Deferred (call callee name args n)
  | operand {e o : Expr} (ho : o ∈ e.operands) (h : o.literal? = none) : Deferred e
  | unary {op : UnaryOp} {e : Expr} {n : Note} {v : Value} {f : Fault} (hv : e.literal? = some v)
      (h : Value.unary op v = .error f) : Deferred (unary op e n)
  | binary {op : BinaryOp} {l r : Expr} {n : Note} {v w : Value} {f : Fault}
      (hv : l.literal? = some v) (hw : r.literal? = some w) (h : Value.binary op v w = .error f) :
      Deferred (binary op l r n)
  | convert {c : Conversion} {e : Expr} {n : Note} {v : Value} {f : Fault}
      (hv : e.literal? = some v) (h : c.apply v = .error f) : Deferred (convert c e n)
  | format {e width : Expr} {n : Note} {v w : Value} {f : Fault} (hv : e.literal? = some v)
      (hw : width.literal? = some w) (h : Value.format Value.constantText v w none = .error f) :
      Deferred (format e width none n)
  | formatReal {e width places : Expr} {n : Note} {v w p : Value} {f : Fault}
      (hv : e.literal? = some v) (hw : width.literal? = some w) (hp : places.literal? = some p)
      (h : Value.format Value.constantText v w (some p) = .error f) :
      Deferred (format e width (some places) n)
  | array {lower : Int64} {items : List Expr} {n : Note} {item : Expr} (hmem : item ∈ items)
      (h : FaultyRange item) : Deferred (array lower items n)

theorem toOption_eq_none_iff {α : Type} {x : Except Fault α} :
    x.toOption = none ↔ ∃ f, x = .error f := by
  cases x <;> simp [Except.toOption]

theorem faultyRange_iff {low high : Expr} {n : Note} : (Expr.range low high n).FaultyRange ↔
    ∃ v w f, low.literal? = some v ∧ high.literal? = some w ∧ Value.expandRange v w = .error f := by
  constructor
  · rintro ⟨hv, hw, h⟩
    exact ⟨_, _, _, hv, hw, h⟩
  · rintro ⟨v, w, f, hv, hw, h⟩
    exact .mk hv hw h

theorem itemValues?_cons_eq_none_iff (e : Expr) (items : List Expr) :
    itemValues? (e :: items) = none ↔
      ((∃ o ∈ e.ends, o.literal? = none) ∨ e.FaultyRange) ∨ itemValues? items = none := by
  by_cases hr : ∃ low high n, e = .range low high n
  · obtain ⟨low, high, n, rfl⟩ := hr
    rw [itemValues?, faultyRange_iff]
    cases hv : low.literal? with
    | none => simp [ends, hv]
    | some v =>
      cases hw : high.literal? with
      | none => simp [ends, hw]
      | some w =>
        cases hvs : Value.expandRange v w with
        | error f => simp [hvs, Except.toOption]
        | ok vs => cases itemValues? items <;> simp [ends, hv, hw, hvs, Except.toOption]
  · have hne : ∀ low high n, e ≠ .range low high n := fun low high n h => hr ⟨low, high, n, h⟩
    have hends : e.ends = [e] := by cases e <;> first | rfl | exact absurd rfl (hne _ _ _)
    have hfaulty : ¬e.FaultyRange := by
      rintro ⟨-, -, -⟩
      exact hne _ _ _ rfl
    rw [itemValues?, hends]
    · cases hv : e.literal? <;> cases itemValues? items <;> simp [hfaulty, hv]
    · exact hne

/-- The values of some items are not known just if an end is no literal or a range is a fault. -/
theorem itemValues?_eq_none_iff {items : List Expr} : itemValues? items = none ↔
    (∃ o ∈ items.flatMap ends, o.literal? = none) ∨ ∃ e ∈ items, e.FaultyRange := by
  induction items with
  | nil => simp [itemValues?]
  | cons e items ih =>
    rw [itemValues?_cons_eq_none_iff, ih]
    simp only [List.flatMap_cons, List.mem_append, List.mem_cons, or_and_right, exists_or,
      exists_eq_left]
    exact or_or_or_comm

/-- A node has a constant value only if all its operands are literals. -/
theorem literal?_of_mem_operands {e : Expr} {v : Value} (h : e.constant? = some v) :
    ∀ o ∈ e.operands, ∃ w, o.literal? = some w := by
  cases e with
  | literal | range | place | address | call => simp [operands]
  | unary op e n | convert c e n =>
    obtain ⟨x, hx, -⟩ := Option.bind_eq_some_iff.mp h
    simp [operands, hx]
  | binary op l r n =>
    obtain ⟨x, hx, h⟩ := Option.bind_eq_some_iff.mp h
    obtain ⟨y, hy, -⟩ := Option.bind_eq_some_iff.mp h
    simp [operands, hx, hy]
  | format e width p n =>
    obtain ⟨r, hr, -⟩ := Option.bind_eq_some_iff.mp h
    cases p with
    | none =>
      obtain ⟨x, y, hx, hy, -⟩ := formatted?_eq_some.mp hr
      simp [operands, hx, hy]
    | some places =>
      obtain ⟨x, y, z, hx, hy, hz, -⟩ := formattedReal?_eq_some.mp hr
      simp [operands, hx, hy, hz]
  | array lower items n =>
    obtain ⟨vs, hvs, -⟩ := Option.bind_eq_some_iff.mp h
    refine fun o ho => Option.ne_none_iff_exists'.mp fun hnone => ?_
    have hitems := itemValues?_eq_none_iff.mpr (.inl ⟨o, ho, hnone⟩)
    rw [hvs] at hitems
    cases hitems

theorem Deferred.constant?_eq_none {e : Expr} (h : e.Deferred) : e.constant? = none := by
  cases h with
  | place | address | range | call => rfl
  | operand ho h =>
    refine Option.eq_none_iff_forall_ne_some.mpr fun v hv => ?_
    obtain ⟨w, hw⟩ := literal?_of_mem_operands hv _ ho
    rw [h] at hw
    cases hw
  | unary hv h => simp [constant?, hv, h, Except.toOption]
  | binary hv hw h => simp [constant?, hv, hw, h, Except.toOption]
  | convert hv h => simp [constant?, hv, h, Except.toOption]
  | format hv hw h =>
    simp [constant?, formatted?_eq_some.mpr ⟨_, _, hv, hw, h⟩, Except.toOption]
  | formatReal hv hw hp h =>
    simp [constant?, formattedReal?_eq_some.mpr ⟨_, _, _, hv, hw, hp, h⟩, Except.toOption]
  | array hmem h => simp [constant?, itemValues?_eq_none_iff.mpr (.inr ⟨_, hmem, h⟩)]

theorem deferred_of_constant? {e : Expr} (h : e.constant? = none) : e.Deferred := by
  by_cases hops : ∃ o ∈ e.operands, o.literal? = none
  · obtain ⟨o, ho, hlit⟩ := hops
    exact .operand ho hlit
  have hlit : ∀ o ∈ e.operands, ∃ v, o.literal? = some v := fun o ho =>
    Option.ne_none_iff_exists'.mp fun hnone => hops ⟨o, ho, hnone⟩
  cases e with
  | literal => cases h
  | place | address | range | call => constructor
  | unary op e n =>
    obtain ⟨v, hv⟩ := hlit e (by simp [operands])
    obtain ⟨f, hf⟩ : ∃ f, Value.unary op v = .error f := by
      simpa [constant?, hv, toOption_eq_none_iff] using h
    exact .unary hv hf
  | binary op l r n =>
    obtain ⟨v, hv⟩ := hlit l (by simp [operands])
    obtain ⟨w, hw⟩ := hlit r (by simp [operands])
    obtain ⟨f, hf⟩ : ∃ f, Value.binary op v w = .error f := by
      simpa [constant?, hv, hw, toOption_eq_none_iff] using h
    exact .binary hv hw hf
  | convert c e n =>
    obtain ⟨v, hv⟩ := hlit e (by simp [operands])
    obtain ⟨f, hf⟩ : ∃ f, c.apply v = .error f := by
      simpa [constant?, hv, toOption_eq_none_iff] using h
    exact .convert hv hf
  | format e width p n =>
    obtain ⟨v, hv⟩ := hlit e (by simp [operands])
    obtain ⟨w, hw⟩ := hlit width (by simp [operands])
    cases p with
    | none =>
      have hr := formatted?_eq_some (n := n).mpr ⟨v, w, hv, hw, rfl⟩
      obtain ⟨f, hf⟩ : ∃ f, Value.format Value.constantText v w none = .error f := by
        simpa [constant?, hr, toOption_eq_none_iff] using h
      exact .format hv hw hf
    | some places =>
      obtain ⟨p, hp⟩ := hlit places (by simp [operands])
      have hr := formattedReal?_eq_some (n := n).mpr ⟨v, w, p, hv, hw, hp, rfl⟩
      obtain ⟨f, hf⟩ : ∃ f, Value.format Value.constantText v w (some p) = .error f := by
        simpa [constant?, hr, toOption_eq_none_iff] using h
      exact .formatReal hv hw hp hf
  | array lower items n =>
    have hnone : itemValues? items = none := by
      cases hvs : itemValues? items with
      | none => rfl
      | some vs => simp [constant?, hvs] at h
    rcases itemValues?_eq_none_iff.mp hnone with hends | ⟨item, hmem, hitem⟩
    · exact absurd hends hops
    · exact .array hmem hitem

theorem constant?_eq_none_iff (e : Expr) : e.constant? = none ↔ e.Deferred :=
  ⟨deferred_of_constant?, Deferred.constant?_eq_none⟩

/-! ## Expressions -/

/-- Whether a node is a literal or has no constant value. -/
def isSettled (e : Expr) : Bool := e.literal?.isSome || e.constant?.isNone

/-- Whether no node of an expression but literals has a constant value. -/
def isFolded (e : Expr) : Bool := e.all isSettled fun _ => true

theorem isSettled_of_constant? {e : Expr} (h : e.constant? = none) : e.isSettled := by
  simp [isSettled, h]

theorem settle_eq_self {e : Expr} (h : e.isSettled) : e.settle = e := by
  unfold settle
  split
  · next v hv =>
    cases e with
    | literal => cases hv; rfl
    | _ => simp [isSettled, hv, literal?] at h
  · rfl

/-- A node with folded parts becomes a literal, or it is one that has no constant value. -/
theorem isFolded_settle {e : Expr} (h : e.isSettled → e.isFolded) : e.settle.isFolded := by
  unfold settle
  split
  · rfl
  · next hnone => exact h (isSettled_of_constant? hnone)

end Expr

def Place.isFolded (p : Place) : Bool := p.all Expr.isSettled fun _ => true

def Arg.isFolded (arg : Arg) : Bool := arg.all Expr.isSettled fun _ => true

namespace Expr

attribute [local simp] isFolded Place.isFolded Arg.isFolded Expr.all Place.all Arg.all

private theorem isFolded_fold_all : (∀ e : Expr, e.fold.isFolded) ∧ (∀ p : Place, p.fold.isFolded) ∧
    ∀ arg : Arg, arg.fold.isFolded := by
  refine Expr.induction ?literal ?place ?array ?range ?address ?unary ?binary ?convert ?format
    ?formatReal ?call ?var ?element ?charAt ?deref ?value ?reference
  case literal => exact fun _ _ => rfl
  case place | address | range =>
    intros
    simp_all [Expr.fold, isSettled, constant?]
  case unary | binary | convert | format | formatReal =>
    intros
    rw [Expr.fold]
    refine isFolded_settle fun h => ?_
    simp_all
  case array =>
    intro lower items n ih
    rw [Expr.fold, foldExprs_eq]
    refine isFolded_settle fun h => ?_
    simp only [isFolded, Expr.all, h, Bool.true_and, allExprs_iff, List.forall_mem_map]
    exact ih
  case call =>
    intro callee name args n ih
    rw [Expr.fold, foldArgs_eq]
    simp only [isFolded, Expr.all, isSettled, constant?, Option.isNone_none, Bool.or_true,
      Bool.true_and, allArgs_iff, List.forall_mem_map]
    exact ih
  case var => exact fun _ => rfl
  case element | charAt | deref | value | reference =>
    intros
    simp_all [Place.fold, Arg.fold]

private theorem fold_eq_self_all : (∀ e : Expr, e.isFolded → e.fold = e) ∧
    (∀ p : Place, p.isFolded → p.fold = p) ∧ ∀ arg : Arg, arg.isFolded → arg.fold = arg := by
  refine Expr.induction ?literal ?place ?array ?range ?address ?unary ?binary ?convert ?format
    ?formatReal ?call ?var ?element ?charAt ?deref ?value ?reference
  case literal => exact fun _ _ _ => rfl
  case place | address | range =>
    intros
    simp_all [Expr.fold]
  case unary | binary | convert | format | formatReal =>
    intros
    simp_all [Expr.fold, settle_eq_self]
  case array =>
    intro lower items n ih h
    simp only [isFolded, Expr.all, Bool.and_eq_true, allExprs_iff] at h
    obtain ⟨hnode, hitems⟩ := h
    rw [Expr.fold, foldExprs_eq, map_eq_self fun e he => ih e he (hitems e he)]
    exact settle_eq_self hnode
  case call =>
    intro callee name args n ih h
    simp only [isFolded, Expr.all, Bool.and_eq_true, allArgs_iff] at h
    rw [Expr.fold, foldArgs_eq, map_eq_self fun arg harg => ih arg harg (h.2 arg harg)]
  case var => exact fun _ _ => rfl
  case element | charAt | deref | value | reference =>
    intros
    simp_all [Place.fold, Arg.fold]

theorem isFolded_fold (e : Expr) : e.fold.isFolded := isFolded_fold_all.1 e

theorem fold_eq_self {e : Expr} (h : e.isFolded) : e.fold = e := fold_eq_self_all.1 e h

theorem fold_fold (e : Expr) : e.fold.fold = e.fold := fold_eq_self e.isFolded_fold

theorem foldEnds_settle {e : Expr} (h : e.foldEnds) : e.settle.foldEnds := by
  unfold settle
  split
  · rfl
  · exact h

/-- Where folding has not broken off, it does not do so the second time: the operands are the same. -/
private theorem foldEnds_fold_all : (∀ e : Expr, e.foldEnds → e.fold.foldEnds) ∧
    (∀ p : Place, p.foldEnds → p.fold.foldEnds) ∧ ∀ arg : Arg, arg.foldEnds → arg.fold.foldEnds := by
  refine Expr.induction ?literal ?place ?array ?range ?address ?unary ?binary ?convert ?format
    ?formatReal ?call ?var ?element ?charAt ?deref ?value ?reference
  case literal | var => intros; rfl
  case unary | binary | convert | format | formatReal =>
    intros
    rw [Expr.fold]
    refine foldEnds_settle ?_
    simp_all [Expr.foldEnds, fold_fold]
  case array =>
    intro lower items n ih h
    simp only [Expr.foldEnds, foldExprsEnds_eq, List.all_eq_true] at h
    rw [Expr.fold, foldExprs_eq]
    refine foldEnds_settle ?_
    simpa [Expr.foldEnds, foldExprsEnds_eq] using fun e he => ih e he (h e he)
  case call =>
    intro callee name args n ih h
    simp only [Expr.foldEnds, foldArgsEnds_eq, List.all_eq_true] at h
    rw [Expr.fold, foldArgs_eq]
    simpa [Expr.foldEnds, foldArgsEnds_eq] using fun arg harg => ih arg harg (h arg harg)
  case place | address | range | element | charAt | deref | value | reference =>
    intros
    simp_all [Expr.fold, Place.fold, Arg.fold, Expr.foldEnds, Place.foldEnds, Arg.foldEnds]

theorem foldEnds_fold {e : Expr} (h : e.foldEnds) : e.fold.foldEnds := foldEnds_fold_all.1 e h

theorem fold?_bind_fold? (e : Expr) : e.fold?.bind fold? = e.fold? := by
  unfold fold?
  split
  · next h => rw [Option.bind_some, if_pos (foldEnds_fold h), fold_fold]
  · rfl

end Expr

theorem Place.isFolded_fold (p : Place) : p.fold.isFolded := Expr.isFolded_fold_all.2.1 p

theorem Place.fold_eq_self {p : Place} (h : p.isFolded) : p.fold = p := Expr.fold_eq_self_all.2.1 p h

theorem Place.foldEnds_fold {p : Place} (h : p.foldEnds) : p.fold.foldEnds :=
  Expr.foldEnds_fold_all.2.1 p h

/-! ## Statements -/

namespace Stmt

/-- Whether a choice or a loop is not yet decided by its condition or its bounds. -/
def isReduced : Stmt → Bool
  | ifThen c _ _ _ => (constantCondition? c).isNone
  | whileDo c _ _ => constantCondition? c != some false
  | forDo _ first d last _ _ => !neverRuns first d last
  | _ => true

/-- Whether no node in a statement but literals has a constant value, and nothing in it is decided. -/
def isFolded (s : Stmt) : Bool := s.all Expr.isSettled (fun _ => true) isReduced

theorem isFolded_fold (s : Stmt) : s.fold.isFolded := by
  have hargs : ∀ args : List Arg, allArgs Expr.isSettled (fun _ => true) (foldArgs args) := by
    intro args
    rw [Expr.foldArgs_eq]
    simp only [allArgs_iff, List.forall_mem_map]
    exact fun arg _ => Expr.isFolded_fold_all.2.2 arg
  have he := Expr.isFolded_fold
  have hp := Place.isFolded_fold
  simp only [Expr.isFolded, Place.isFolded] at he hp
  unfold isFolded
  induction s using Stmt.induction with
  | block body pos ih =>
    rw [Stmt.fold, foldStmts_eq]
    simp only [Stmt.all, isReduced, Bool.true_and, allStmts_iff, List.forall_mem_map]
    exact ih
  | assign target value pos => simp [Stmt.fold, Stmt.all, isReduced, hp, he]
  | call callee name args pos => simp [Stmt.fold, Stmt.all, isReduced, hargs]
  | ifThen condition yes no pos ihyes ihno =>
    unfold Stmt.fold
    dsimp only
    split
    · exact ihyes
    · exact ihno _ rfl
    · rfl
    · next hc => simp [Stmt.all, isReduced, hc, he, ihyes, allOption, ihno _ rfl]
    · next hc => simp [Stmt.all, isReduced, hc, he, ihyes, allOption]
  | whileDo condition body pos ih =>
    unfold Stmt.fold
    dsimp only
    split
    · rfl
    · next hc => simpa [Stmt.all, isReduced, he, ih] using hc
  | repeatUntil body condition pos ih =>
    rw [Stmt.fold, foldStmts_eq]
    simp only [Stmt.all, isReduced, Bool.true_and, Bool.and_eq_true, allStmts_iff, List.forall_mem_map]
    exact ⟨ih, he condition⟩
  | forDo counter first direction last body pos ih =>
    rw [Stmt.fold]
    split
    · simp [Stmt.all, isReduced, hp, he]
    · next hruns => simp [Stmt.all, isReduced, hruns, hp, he, ih]
  | caseOf selector arms otherwise pos iharms ihotherwise =>
    rw [Stmt.fold, foldArms_eq, foldOption_eq]
    simp only [Stmt.all, isReduced, Bool.true_and, Bool.and_eq_true, allArms_iff]
    refine ⟨⟨he selector, fun labels body hm => ?_⟩, ?_⟩
    · obtain ⟨⟨labels', body'⟩, hmem, heq⟩ := List.mem_map.mp hm
      cases heq
      exact iharms labels body' hmem
    · cases otherwise with
      | none => rfl
      | some s => exact ihotherwise s rfl
  | breakLoop | continueLoop | exitRoutine | empty => rfl
  | new target pointee pos | dispose target pos => simp [Stmt.fold, Stmt.all, isReduced, hp]

theorem fold_eq_self {s : Stmt} (h : s.isFolded) : s.fold = s := by
  have hargs : ∀ {args : List Arg}, allArgs Expr.isSettled (fun _ => true) args →
      foldArgs args = args := by
    intro args hargs
    rw [Expr.foldArgs_eq]
    exact map_eq_self fun arg hm => Expr.fold_eq_self_all.2.2 arg (allArgs_iff.mp hargs arg hm)
  have he : ∀ {e : Expr}, e.all Expr.isSettled (fun _ => true) → e.fold = e := Expr.fold_eq_self
  have hp : ∀ {p : Place}, p.all Expr.isSettled (fun _ => true) → p.fold = p := Place.fold_eq_self
  unfold isFolded at h
  induction s using Stmt.induction with
  | block body pos ih =>
    simp only [Stmt.all, isReduced, Bool.true_and, allStmts_iff] at h
    rw [Stmt.fold, foldStmts_eq, map_eq_self fun s hm => ih s hm (h s hm)]
  | assign target value pos =>
    simp only [Stmt.all, isReduced, Bool.true_and, Bool.and_eq_true] at h
    rw [Stmt.fold, hp h.1, he h.2]
  | call callee name args pos =>
    simp only [Stmt.all, isReduced, Bool.true_and] at h
    rw [Stmt.fold, hargs h]
  | ifThen condition yes no pos ihyes ihno =>
    simp only [Stmt.all, isReduced, Bool.and_eq_true, Option.isNone_iff_eq_none] at h
    obtain ⟨⟨⟨hc, hcond⟩, hyes⟩, hno⟩ := h
    unfold Stmt.fold
    simp only [he hcond, hc, ihyes hyes]
    cases no with
    | none => rfl
    | some no => simp only [ihno no rfl hno]
  | whileDo condition body pos ih =>
    simp only [Stmt.all, isReduced, Bool.and_eq_true, bne_iff_ne] at h
    obtain ⟨⟨hc, hcond⟩, hbody⟩ := h
    unfold Stmt.fold
    simp only [he hcond, ih hbody]
  | repeatUntil body condition pos ih =>
    simp only [Stmt.all, isReduced, Bool.true_and, Bool.and_eq_true, allStmts_iff] at h
    rw [Stmt.fold, foldStmts_eq, map_eq_self fun s hm => ih s hm (h.1 s hm), he h.2]
  | forDo counter first direction last body pos ih =>
    simp only [Stmt.all, isReduced, Bool.and_eq_true, Bool.not_eq_true'] at h
    obtain ⟨⟨⟨⟨hruns, hcounter⟩, hfirst⟩, hlast⟩, hbody⟩ := h
    rw [Stmt.fold, hp hcounter, he hfirst, he hlast, hruns, ih hbody]
    rfl
  | caseOf selector arms otherwise pos iharms ihotherwise =>
    simp only [Stmt.all, isReduced, Bool.true_and, Bool.and_eq_true, allArms_iff] at h
    obtain ⟨⟨hsel, harms⟩, hotherwise⟩ := h
    have harm : ∀ arm ∈ arms, arm.fold = arm := by
      rintro ⟨labels, body⟩ hm
      rw [Arm.fold, iharms labels body hm (harms labels body hm)]
    rw [Stmt.fold, foldArms_eq, foldOption_eq, he hsel, map_eq_self harm]
    cases otherwise with
    | none => rfl
    | some s => rw [Option.map_some, ihotherwise s rfl hotherwise]
  | breakLoop | continueLoop | exitRoutine | empty => rfl
  | new target pointee pos | dispose target pos =>
    simp only [Stmt.all, isReduced, Bool.true_and] at h
    rw [Stmt.fold, hp h]

theorem fold_fold (s : Stmt) : s.fold.fold = s.fold := fold_eq_self s.isFolded_fold

theorem foldEnds_fold {s : Stmt} (h : s.foldEnds) : s.fold.foldEnds := by
  have hargs : ∀ {args : List Arg}, foldArgsEnds args → foldArgsEnds (foldArgs args) := by
    intro args h
    rw [foldArgsEnds_eq, List.all_eq_true] at h
    rw [Expr.foldArgs_eq, foldArgsEnds_eq, List.all_map, List.all_eq_true]
    exact fun arg harg => Expr.foldEnds_fold_all.2.2 arg (h arg harg)
  have he : ∀ {e : Expr}, e.foldEnds → e.fold.foldEnds := Expr.foldEnds_fold
  have hp : ∀ {p : Place}, p.foldEnds → p.fold.foldEnds := Place.foldEnds_fold
  induction s using Stmt.induction with
  | block body pos ih =>
    simp only [Stmt.foldEnds, foldStmtsEnds_eq, List.all_eq_true] at h
    simpa [Stmt.fold, Stmt.foldEnds, foldStmts_eq, foldStmtsEnds_eq] using fun s hs => ih s hs (h s hs)
  | call callee name args pos => exact hargs h
  | ifThen condition yes no pos ihyes ihno =>
    cases no with
    | none =>
      simp only [Stmt.foldEnds, Bool.and_eq_true] at h
      unfold Stmt.fold
      dsimp only
      cases constantCondition? condition.fold with
      | none => simp [Stmt.foldEnds, he h.1, ihyes h.2]
      | some b => cases b <;> simp [Stmt.foldEnds, ihyes h.2]
    | some no =>
      simp only [Stmt.foldEnds, Bool.and_eq_true] at h
      unfold Stmt.fold
      dsimp only
      cases constantCondition? condition.fold with
      | none => simp [Stmt.foldEnds, he h.1.1, ihyes h.1.2, ihno no rfl h.2]
      | some b => cases b <;> simp [ihyes h.1.2, ihno no rfl h.2]
  | whileDo condition body pos ih =>
    simp only [Stmt.foldEnds, Bool.and_eq_true, Bool.or_eq_true, beq_iff_eq] at h
    obtain ⟨hcondition, hbody⟩ := h
    unfold Stmt.fold
    dsimp only
    split
    · rfl
    · next hc => simp [Stmt.foldEnds, he hcondition, ih (hbody.resolve_left hc)]
  | repeatUntil body condition pos ih =>
    simp only [Stmt.foldEnds, foldStmtsEnds_eq, Bool.and_eq_true, List.all_eq_true] at h
    obtain ⟨hbody, hcondition⟩ := h
    simpa [Stmt.fold, Stmt.foldEnds, foldStmts_eq, foldStmtsEnds_eq, he hcondition] using
      fun s hs => ih s hs (hbody s hs)
  | forDo counter first direction last body pos ih =>
    simp only [Stmt.foldEnds, Bool.and_eq_true, Bool.or_eq_true] at h
    obtain ⟨⟨⟨hcounter, hfirst⟩, hlast⟩, hbody⟩ := h
    rw [Stmt.fold]
    split
    · simp [Stmt.foldEnds, hp hcounter, he hfirst]
    · next hruns =>
      simp [Stmt.foldEnds, hp hcounter, he hfirst, he hlast, ih (hbody.resolve_left hruns)]
  | caseOf selector arms otherwise pos iharms ihotherwise =>
    have harms : foldArmsEnds arms → (arms.map Arm.fold).all Arm.foldEnds := by
      rw [foldArmsEnds_eq, List.all_map, List.all_eq_true, List.all_eq_true]
      rintro h ⟨labels, body⟩ harm
      exact iharms labels body harm (h _ harm)
    cases otherwise with
    | none =>
      simp only [Stmt.foldEnds, Bool.and_eq_true] at h
      simp only [Stmt.fold, Stmt.foldEnds, foldArms_eq, foldArmsEnds_eq, foldOption_eq, Option.map_none,
        he h.1, harms h.2, Bool.and_self]
    | some s =>
      simp only [Stmt.foldEnds, Bool.and_eq_true] at h
      simp only [Stmt.fold, Stmt.foldEnds, foldArms_eq, foldArmsEnds_eq, foldOption_eq, Option.map_some,
        he h.1.1, harms h.1.2, ihotherwise s rfl h.2, Bool.and_self]
  | breakLoop | continueLoop | exitRoutine | empty => rfl
  | _ => simp_all [Stmt.fold, Stmt.foldEnds]

theorem fold?_bind_fold? (s : Stmt) : s.fold?.bind fold? = s.fold? := by
  unfold fold?
  split
  · next h => rw [Option.bind_some, if_pos (foldEnds_fold h), fold_fold]
  · rfl

end Stmt

/-- A sum goes away, and a division by zero stays for the run. -/
example (n : Note) :
    let one := Expr.literal (.integer 1) n
    let zero := Expr.literal (.integer 0) n
    (Expr.binary .intDivide (.binary .add one one n) zero n).fold? =
      some (.binary .intDivide (.literal (.integer 2) n) zero n) := by rfl

end Pascal
