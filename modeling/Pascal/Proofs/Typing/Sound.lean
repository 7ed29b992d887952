import Mathlib.Logic.Relation
import Pascal.Proofs.Scope.Resolve
import Pascal.Proofs.Tree.All
import Pascal.Proofs.Typing.Convert

/-!
# Typed expressions

The types that are written in a tree are the types of its values. A tree says `Typed` where each node has
operands of the types that it works on. The functions that build expressions from typed operands give typed
expressions, in every arena that the names were resolved in or that has grown out of it.
-/

namespace Pascal

namespace Arena

/-- The declared type of a variable. -/
def varTy? (a : Arena) (v : VarRef) : Option Ty :=
  ((a.scope v.scope).varNamed? v.name).map fun x => x.ty

/-- Whether a variable is a parameter that is passed by reference. -/
def isReference (a : Arena) (v : VarRef) : Bool :=
  (a.functionOf? v.scope).any fun id =>
    (a.function id).signature.params.any fun p => p.mode == .var && Text.lower p.name == v.name

end Arena

namespace Place

/-- The variable that a place is a part of, unless a pointer leads to it. -/
def root? : Place → Option VarRef
  | var v => some v
  | element base _ | charAt base _ => base.root?
  | deref _ => none

/-- Whether a place is part of a parameter that is passed by reference. -/
def isView (a : Arena) (p : Place) : Bool := p.root?.any a.isReference

end Place

/-- A type that expressions of another type can be taken for. -/
def Ty.Becomes (d : Discipline) : Ty → Ty → Prop :=
  Relation.ReflTransGen fun t t' =>
    t'.Tame d ∧ ∃ c, Conversion.between? t t' = some c ∧ c.isRetype

mutual

/-- Expressions whose values have the types that are written in them. -/
def Expr.Typed (d : Discipline) (a : Arena) : Expr → Prop
  | .literal v n => v.Plain ∧ n.ty.Tame d ∧ v.HasType [] (n.ty.outline d.bounds)
  | .place p n => ∃ t, p.Typed d a t ∧ t.Becomes d n.ty
  | .array lower items n => ∃ element r, element.Tame d ∧ (d.bounds → r.Admits lower items.length) ∧
      itemsTyped d a element items ∧ (Ty.array element r).Becomes d n.ty
  | .range _ _ _ => False
  | .address p n => ∃ t, p.Typed d a t ∧ (Ty.pointer t).Tame d ∧ (Ty.pointer t).Becomes d n.ty
  | .unary op e n => e.Typed d a ∧ op.Takes e.ty ∧ e.ty.Becomes d n.ty
  | .binary op l r n => l.Typed d a ∧ r.Typed d a ∧ ∃ t, op.Takes l.ty r.ty t ∧ t.Becomes d n.ty
  | .convert c e n => e.Typed d a ∧ ∃ t, Conversion.between? e.ty t = some c ∧ t.Tame d ∧
      t.Becomes d n.ty
  | .format v w none n => v.Typed d a ∧ w.Typed d a ∧ w.ty = .integer ∧ Ty.string.Becomes d n.ty
  | .format v w (some p) n => v.Typed d a ∧ w.Typed d a ∧ w.ty = .integer ∧ p.Typed d a ∧
      p.ty = .integer ∧ Ty.string.Becomes d n.ty
  | .call callee _ args n => argsTyped d a (a.signature callee).split.2 args
      (a.signature callee).split.1 ∧
      ∃ t, (a.signature callee).result = some t ∧ t.Tame d ∧ t.Becomes d n.ty

/-- Places of variables or parts of variables of a type. -/
def Place.Typed (d : Discipline) (a : Arena) : Place → Ty → Prop
  | .var v, t => a.varTy? v = some t ∧ t.Tame d
  | .element base index, t => index.Typed d a ∧ index.ty.isIntegral ∧
      ∃ r, base.Typed d a (.array t r)
  | .charAt base index, t => index.Typed d a ∧ index.ty.isIntegral ∧ base.Typed d a .string ∧
      t = .char
  | .deref pointer, t => pointer.Typed d a ∧ pointer.ty = .pointer t

/-- Arguments for a parameter of a type. -/
def Arg.Typed (d : Discipline) (a : Arena) (t : Ty) (mode : ParamMode) : Arg → Prop
  | .value e => mode ≠ .var ∧ e.Typed d a ∧ e.ty = t
  | .reference p => mode = .var ∧ ∃ u, p.Typed d a u ∧ (t = .any ∨ u.fits t)

/-- The items of an array constructor, with ranges among them where there may be any. -/
def itemsTyped (d : Discipline) (a : Arena) (element : Ty) : List Expr → Prop
  | [] => True
  | .range low high n :: items => d.takesRanges ∧ low.Typed d a ∧ low.ty = element ∧
      high.Typed d a ∧ high.ty = element ∧ n.ty = element ∧ itemsTyped d a element items
  | item :: items => item.Typed d a ∧ item.ty = element ∧ itemsTyped d a element items

/-- The arguments for some parameters, and further ones. -/
def argsTyped (d : Discipline) (a : Arena) (further : Option (Ty × ParamMode)) :
    List Arg → List Parameter → Prop
  | [], ps => ps = []
  | arg :: args, [] => (∃ t mode, further = some (t, mode) ∧ arg.Typed d a t mode) ∧
      argsTyped d a further args []
  | arg :: args, p :: ps => arg.Typed d a p.ty p.mode ∧ argsTyped d a further args ps

end

/-! ## Expressions that are built -/

variable {d : Discipline} {a : Arena}

namespace Ty.Becomes

variable {t t' t'' : Ty}

theorem refl (t : Ty) : t.Becomes d t := Relation.ReflTransGen.refl

theorem tail {c : Conversion} (h : t.Becomes d t') (hc : Conversion.between? t' t'' = some c)
    (hr : c.isRetype) (ht : t''.Tame d) : t.Becomes d t'' :=
  Relation.ReflTransGen.tail h ⟨ht, c, hc, hr⟩

theorem tame (h : t.Becomes d t') (ht : t.Tame d) : t'.Tame d := by
  induction h with
  | refl => exact ht
  | tail _ h _ => exact h.1

/-- A value is not changed where its expression is taken for one of another type. -/
theorem hasType {cells : List Ty} {v : Value} (h : t.Becomes d t') (ht : t.Tame d)
    (hv : v.HasType cells (t.outline d.bounds)) : v.HasType cells (t'.outline d.bounds) := by
  induction h with
  | refl => exact hv
  | tail h₁ h ih =>
    obtain ⟨ht', c, hc, hr⟩ := h
    have hmid := Ty.Becomes.tame h₁ ht
    have hconv := Conversion.converts hc
    have hgives := Conversion.apply_gives hconv hmid ht' ih
    rw [Conversion.apply_of_isRetype hconv hr hmid ih] at hgives
    exact hgives

end Ty.Becomes

theorem BinaryOp.Takes.tame {op : BinaryOp} {l r t : Ty} (h : op.Takes l r t) (hl : l.Tame d) :
    t.Tame d := by
  cases h with
  | shift => exact hl
  | member => exact .basic _
  | common h =>
    have ht : t = l ∨ t = .boolean := by
      cases op <;> simp only [BinaryOp.result?] at h <;> first
        | exact .inr (Option.some.inj h).symm
        | (split at h <;> cases h <;> simp)
        | cases h
    rcases ht with rfl | rfl
    · exact hl
    · exact .basic _

mutual

theorem Expr.Typed.tame : ∀ {e : Expr}, e.Typed d a → e.ty.Tame d
  | .literal _ _, h => h.2.1
  | .place p _, h => by
    obtain ⟨t, hp, ht⟩ := h
    exact ht.tame (Place.Typed.tame hp)
  | .array _ _ _, h => by
    obtain ⟨element, r, he, -, -, ht⟩ := h
    exact ht.tame (Ty.Tame.array.mpr he)
  | .range _ _ _, h => h.elim
  | .address _ _, h => by
    obtain ⟨t, -, ht, hb⟩ := h
    exact hb.tame ht
  | .unary _ e _, h => h.2.2.tame (Expr.Typed.tame h.1)
  | .binary _ l _ _, h => by
    obtain ⟨hl, -, t, ht, hb⟩ := h
    exact hb.tame (ht.tame (Expr.Typed.tame hl))
  | .convert _ _ _, h => by
    obtain ⟨-, t, -, ht, hb⟩ := h
    exact hb.tame ht
  | .format _ _ none _, h => by
    simp only [Expr.Typed] at h
    exact h.2.2.2.tame (.basic _)
  | .format _ _ (some _) _, h => by
    simp only [Expr.Typed] at h
    exact h.2.2.2.2.2.tame (.basic _)
  | .call _ _ _ _, h => by
    obtain ⟨-, t, -, ht, hb⟩ := h
    exact hb.tame ht

theorem Place.Typed.tame : ∀ {p : Place} {t : Ty}, p.Typed d a t → t.Tame d
  | .var _, _, h => h.2
  | .element base _, _, h => by
    obtain ⟨-, -, r, hb⟩ := h
    exact Ty.Tame.array.mp (Place.Typed.tame hb)
  | .charAt _ _, _, h => by
    obtain ⟨-, -, -, rfl⟩ := h
    exact .basic _
  | .deref pointer, _, h => (h.2 ▸ Expr.Typed.tame h.1).target

end

/-- An item of an array constructor. -/
def Expr.ItemTyped (d : Discipline) (a : Arena) (element : Ty) : Expr → Prop
  | .range low high n => d.takesRanges ∧ low.Typed d a ∧ low.ty = element ∧ high.Typed d a ∧
      high.ty = element ∧ n.ty = element
  | e => e.Typed d a ∧ e.ty = element

theorem itemsTyped_iff {element : Ty} {items : List Expr} :
    itemsTyped d a element items ↔ ∀ e ∈ items, e.ItemTyped d a element := by
  induction items with
  | nil => simp [itemsTyped]
  | cons e items ih =>
    cases e <;> simp [itemsTyped, Expr.ItemTyped, ih, and_assoc]

namespace Expr

/-- Where no range is an item, an item is an expression of the element type. -/
theorem ItemTyped.typed {element : Ty} {e : Expr} (h : e.ItemTyped d a element)
    (hr : ∀ low high n, e ≠ .range low high n) : e.Typed d a ∧ e.ty = element := by
  cases e with
  | range low high n => exact absurd rfl (hr low high n)
  | _ => exact h

theorem ItemTyped.of_typed {element : Ty} {e : Expr} (h : e.Typed d a) (ht : e.ty = element) :
    e.ItemTyped d a element := by
  cases e with
  | range => exact h.elim
  | _ => exact ⟨h, ht⟩

theorem Typed.retype {e : Expr} (h : e.Typed d a) {t : Ty} {c : Conversion}
    (hc : Conversion.between? e.ty t = some c) (hr : c.isRetype) (ht : t.Tame d) :
    (e.retype t).Typed d a := by
  cases e with
  | literal v n =>
    obtain ⟨hp, htame, hv⟩ := h
    exact ⟨hp, ht, Ty.Becomes.hasType (.tail (.refl _) hc hr ht) htame hv⟩
  | place p n => obtain ⟨u, hp, hb⟩ := h; exact ⟨u, hp, hb.tail hc hr ht⟩
  | array lower items n =>
    obtain ⟨element, r, he, ha, hi, hb⟩ := h
    exact ⟨element, r, he, ha, hi, hb.tail hc hr ht⟩
  | range => exact h.elim
  | address p n => obtain ⟨u, hp, hu, hb⟩ := h; exact ⟨u, hp, hu, hb.tail hc hr ht⟩
  | unary op e n => exact ⟨h.1, h.2.1, h.2.2.tail hc hr ht⟩
  | binary op l r n =>
    obtain ⟨hl, hr', u, hu, hb⟩ := h
    exact ⟨hl, hr', u, hu, hb.tail hc hr ht⟩
  | convert c' e n =>
    obtain ⟨he, u, hu, htame, hb⟩ := h
    exact ⟨he, u, hu, htame, hb.tail hc hr ht⟩
  | format v w p n =>
    cases p with
    | none =>
      simp only [Expr.Typed] at h
      simp only [Expr.retype, Expr.Typed]
      exact ⟨h.1, h.2.1, h.2.2.1, h.2.2.2.tail hc hr ht⟩
    | some p =>
      simp only [Expr.Typed] at h
      simp only [Expr.retype, Expr.Typed]
      exact ⟨h.1, h.2.1, h.2.2.1, h.2.2.2.1, h.2.2.2.2.1, h.2.2.2.2.2.tail hc hr ht⟩
  | call callee name args n =>
    obtain ⟨hargs, u, hu, htame, hb⟩ := h
    exact ⟨hargs, u, hu, htame, hb.tail hc hr ht⟩

theorem Typed.convertTo? {e e' : Expr} (h : e.Typed d a) {t : Ty} (ht : t.Tame d)
    (he : e.convertTo? t = some e') : e'.Typed d a ∧ e'.ty = t := by
  obtain ⟨c, hc, rfl⟩ := convertTo?_eq_some.mp he
  split
  · next hr => exact ⟨h.retype hc hr ht, ty_retype e t⟩
  · exact ⟨⟨h, t, hc, ht, .refl t⟩, rfl⟩

private theorem count?_of_single {items : List Expr}
    (h : ∀ e ∈ items, ∀ low high n, e ≠ .range low high n) :
    count? items = some items.length := by
  induction items with
  | nil => rfl
  | cons e items ih =>
    have he : e.itemCount? = some 1 := by
      cases e with
      | range low high n => exact absurd rfl (h _ List.mem_cons_self low high n)
      | _ => rfl
    simp [count?, he, ih fun e hm => h e (List.mem_cons_of_mem _ hm), Nat.add_comm]

theorem length_of_fitted {fit : Expr → Expr → Prop} {t : Ty} {es es' : List Expr}
    (h : Fitted fit t es es') : es'.length = es.length := by
  induction h with
  | nil => rfl
  | range _ _ _ ih => simp [ih]
  | item _ _ _ ih => simp [ih]

private theorem items_fitted {fit : Expr → Expr → Prop} {t t' : Ty} {es es' : List Expr}
    (h : Fitted fit t' es es') (hes : ∀ e ∈ es, e.ItemTyped d a t)
    (hfit : ∀ e e', fit e e' → e.Typed d a → e'.Typed d a ∧ e'.ty = t') :
    ∀ e ∈ es', e.ItemTyped d a t' := by
  induction h with
  | nil => simp
  | range hlow hhigh _ ih =>
    obtain ⟨hr, hrest⟩ := List.forall_mem_cons.mp hes
    obtain ⟨hb, hl, -, hh, -, -⟩ := hr
    obtain ⟨hl', htl⟩ := hfit _ _ hlow hl
    obtain ⟨hh', hth⟩ := hfit _ _ hhigh hh
    exact List.forall_mem_cons.mpr ⟨⟨hb, hl', htl, hh', hth, rfl⟩, ih hrest⟩
  | item he hne _ ih =>
    obtain ⟨hi, hrest⟩ := List.forall_mem_cons.mp hes
    obtain ⟨he', ht'⟩ := hfit _ _ he (hi.typed hne).1
    exact List.forall_mem_cons.mpr ⟨.of_typed he' ht', ih hrest⟩

/-- An expression that is coerced to a type is one of that type. -/
theorem Typed.coerce {e e' : Expr} (h : e.Typed d a) {t : Ty}
    (ht : t.Tame d) (he : e.coerce t = .ok e') : e'.Typed d a ∧ e'.ty = t := by
  induction t generalizing e e' with
  | array element r ih =>
    rcases coerce_eq_ok he with he | ⟨lower, items, n, element', r', items', rfl, he', -, hcount,
      hitems, he⟩
    · exact h.convertTo? ht he
    · cases he'
      have htame := Ty.Tame.array.mp ht
      refine Typed.convertTo? (e := .array r.lower items' ⟨.array element r, n.pos⟩) ?_ ht he
      obtain ⟨element₀, r₀, -, -, hi, -⟩ := h
      have hi := itemsTyped_iff.mp hi
      refine ⟨element, r, htame, fun hb => fun _ => ⟨rfl, ?_⟩, ?_, .refl _⟩
      · have hsingle : ∀ e ∈ items, ∀ low high n, e ≠ .range low high n := by
          rintro e hm low high n rfl
          rw [Discipline.not_bounds (hi _ hm).1] at hb
          cases hb
        rw [count?_of_single hsingle] at hcount
        rw [length_of_fitted hitems]
        exact hcount
      · exact itemsTyped_iff.mpr (items_fitted hitems hi fun e e' he h => ih h htame he)
  | _ => exact h.convertTo? ht (converted_eq_ok.mp he)

end Expr

end Pascal
