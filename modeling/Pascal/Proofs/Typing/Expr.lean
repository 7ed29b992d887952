import Pascal.Proofs.Scope.Extends
import Pascal.Proofs.Typing.Call

/-!
# Typed expressions

Where constants have values of their types and the types of variables and of parameters are allowed,
all expressions that can be read are typed.
-/

namespace Pascal

variable {d : Discipline} {a a' : Arena}

/-- A value that refers to no storage and is of an allowed type. -/
structure Value.Fits (d : Discipline) (t : Ty) (v : Value) : Prop where
  plain : v.Plain
  tame : t.Tame d
  type : v.HasType [] (t.outline d.bounds)

/-- What is declared is well-typed. -/
def Entity.Sound (d : Discipline) : Entity → Prop
  | routines _ => True
  | constant c => c.value.Fits d c.ty
  | var v => v.ty.isWritten ∧ v.ty.Tame d ∧ ∀ x, v.initial = some x → x.Fits d v.ty
  | type t => t.isWritten

/-- What a library offers is well-typed. -/
structure LibraryScope.Sound (d : Discipline) (l : LibraryScope) : Prop where
  constants : ∀ c ∈ l.constants, c.2.value.Fits d c.2.ty
  types : ∀ t ∈ l.types, t.2.isWritten

namespace Arena

structure Sound (d : Discipline) (a : Arena) : Prop where
  entities : a.Holds (Entity.Sound d)
  functions : ∀ id < a.functions.size, (a.function id).signature.Tame d ∧
    ∀ q ∈ (a.function id).signature.params, q.ty.isWritten
  natives : ∀ (id : Nat) r, a.natives[id]? = some r → r.signature.Tame d
  libraries : ∀ l ∈ a.libraries, l.Sound d

theorem Sound.signature (h : a.Sound d) {scope : Nat} {callee : Callee}
    (hc : a.Callable scope callee) : (a.signature callee).Tame d := by
  cases callee with
  | user id => exact (h.functions id hc.1).1
  | native id =>
    have hlt : id < a.natives.size := hc
    have hr : a.natives[id]? = some a.natives[id] := Array.getElem?_eq_getElem hlt
    simp only [Arena.signature, hr]
    exact h.natives id _ hr

/-- A declared variable has its type. -/
theorem varTy?_eq_some {s : Nat} {key : String} {v : Variable}
    (h : (a.scope s).entity? key = some (.var v)) : a.varTy? ⟨s, key⟩ = some v.ty := by
  simp [varTy?, Scope.varNamed?, h]

end Arena

namespace Place

/-- The type of the storage that a place stands for. -/
def ty? (a : Arena) : Place → Option Ty
  | var v => a.varTy? v
  | element base _ =>
    match base.ty? a with
    | some (.array t _) => some t
    | _ => none
  | charAt _ _ => some .char
  | deref pointer =>
    match pointer.ty with
    | .pointer target => some target
    | _ => none

theorem Typed.ty? {p : Place} {t : Ty} (h : p.Typed d a t) : p.ty? a = some t := by
  induction p using Place.rec (motive_1 := fun _ => True) (motive_3 := fun _ => True)
    (motive_4 := fun _ => True) (motive_5 := fun _ => True) (motive_6 := fun _ => True)
    generalizing t with
  | var v => exact h.1
  | element base index ih =>
    obtain ⟨-, -, r, hb⟩ := h
    simp [Place.ty?, ih hb]
  | charAt base index => rw [h.2.2.2]; rfl
  | deref pointer => simp [Place.ty?, h.2]
  | _ => trivial

end Place

namespace Expr

/-- Whether an address is one of storage whose arrays all have declared bounds. -/
def closes (a : Arena) : Expr → Bool
  | .address p _ => (p.ty? a).all Ty.isClosed
  | _ => true

theorem blind_closes (a : Arena) : Blind (closes a) where
  retype e t := by cases e <;> rfl
  literal _ _ := rfl
  place _ _ := rfl
  convert _ _ _ := rfl
  array _ _ _ := rfl
  range _ _ _ := rfl

/-- Where bounds count, no address in an expression is one of storage without declared bounds. -/
def Closes (d : Discipline) (a : Arena) (e : Expr) : Prop :=
  d.bounds → e.all (closes a) fun _ => true

end Expr

theorem Token.Kind.literal?_fits {k : Token.Kind} {v : Value} {ty : Ty}
    (h : k.literal? = some (v, ty)) : v.Fits d ty := by
  unfold Token.Kind.literal? at h
  split at h <;> cases h
  case h_8 => exact ⟨rfl, .nil, rfl⟩
  all_goals exact ⟨rfl, .basic _, rfl⟩

theorem Ty.common?_eq_some {left right t : Ty} (h : left.common? right = some t) :
    t = left ∨ t = right := by
  unfold Ty.common? at h
  split at h
  · cases h
  · split at h
    · cases h; exact .inr rfl
    · split at h <;> cases h
      exact .inl rfl

theorem Expr.operandTypes?_operand {op : BinaryOp} {left right operand result : Ty}
    (h : Expr.operandTypes? op left right = some (operand, result)) :
    operand = left ∨ operand = right ∨ ∃ b, operand = .basic b := by
  have hwithin : ∀ {fits : Ty → Bool} {f : Ty → Ty × Ty},
      (do let ty ← left.common? right; if fits ty then some (f ty) else none) =
        some (operand, result) → (∀ ty, (f ty).1 = ty ∨ ∃ b, (f ty).1 = .basic b) →
      operand = left ∨ operand = right ∨ ∃ b, operand = .basic b := by
    intro fits f h hf
    obtain ⟨ty, hty, h⟩ := Option.bind_eq_some_iff.mp h
    split at h
    · obtain he := Option.some.inj h
      rcases hf ty with hf | ⟨b, hf⟩
      · rw [he] at hf
        obtain rfl : operand = ty := hf
        exact (Ty.common?_eq_some hty).imp_right .inl
      · rw [he] at hf
        exact .inr (.inr ⟨b, hf⟩)
    · cases h
  cases op <;> simp only [operandTypes?] at h
  case add =>
    split at h
    · cases h; exact .inr (.inr ⟨_, rfl⟩)
    · exact hwithin h fun _ => .inl rfl
  case divide => exact hwithin h fun _ => .inr ⟨_, rfl⟩
  all_goals first
    | cases h
    | exact hwithin h fun _ => .inl rfl

theorem SetItem.elementType_mem {found : Option Ty} {es : List Expr} {t : Ty}
    (h : elementType found es = .ok t) :
    t = .any ∨ found = some t ∨ ∃ e ∈ es, e.ty = t := by
  induction es generalizing found with
  | nil =>
    cases found with
    | none => cases h; exact .inl rfl
    | some t' => cases h; exact .inr (.inl rfl)
  | cons e es ih =>
    cases found with
    | none =>
      rcases ih h with h | h | ⟨e', he', h⟩
      · exact .inl h
      · exact .inr (.inr ⟨e, List.mem_cons_self, Option.some.inj h⟩)
      · exact .inr (.inr ⟨e', List.mem_cons_of_mem _ he', h⟩)
    | some t' =>
      rw [elementType] at h
      split at h
      · next t'' hc =>
        rcases ih h with h | h | ⟨e', he', h⟩
        · exact .inl h
        · obtain rfl := Option.some.inj h
          rcases Ty.common?_eq_some hc with rfl | rfl
          · exact .inr (.inl rfl)
          · exact .inr (.inr ⟨e, List.mem_cons_self, rfl⟩)
        · exact .inr (.inr ⟨e', List.mem_cons_of_mem _ he', h⟩)
      · cases h

namespace Expr

theorem Typed.literal {t : Ty} {v : Value} (h : v.Fits d t) (p : Position) :
    (Expr.literal v ⟨t, p⟩).Typed d a := ⟨h.plain, h.tame, h.type⟩

/-- An expression that stands for no place is as exact as it is typed. -/
theorem Exact.of_typed {e : Expr} (h : e.Typed d a) (hp : e.place? = none) : e.Exact d a :=
  ⟨h, fun p hp' => by rw [hp] at hp'; cases hp'⟩

theorem Exact.of_place {p : Place} {n : Note} (h : p.Typed d a n.ty) :
    (Expr.place p n).Exact d a where
  typed := ⟨n.ty, h, .refl _⟩
  place _ hq := by cases hq; exact h

theorem Exact.indexed {base index e : Expr} (hbase : base.Exact d a) (hindex : index.Exact d a)
    (h : base.indexed index = .ok e) : e.Exact d a := by
  obtain ⟨hi, q, hq, ⟨element, bounds, hty, rfl⟩ | ⟨hty, rfl⟩⟩ := indexed_eq_ok h
  · exact .of_place ⟨hindex.typed, hi, bounds, hty ▸ hbase.place q hq⟩
  · exact .of_place ⟨hindex.typed, hi, hty ▸ hbase.place q hq, rfl⟩

theorem Exact.addressOf {target e : Expr} {p : Position} (htarget : target.Exact d a)
    (h : target.addressOf p = .ok e) (hc : e.Closes d a) : e.Exact d a := by
  obtain ⟨q, n, rfl, rfl⟩ := addressOf_eq_ok h
  have hq : q.Typed d a n.ty := htarget.place q rfl
  have ht : n.ty.Tame d := htarget.typed.tame
  refine .of_typed ⟨n.ty, hq, ⟨ht.ground, fun hb => ?_⟩, .refl _⟩ rfl
  have hclosed := hc hb
  simp only [Expr.all, closes, hq.ty?, Option.all_some, Bool.and_eq_true] at hclosed
  exact hclosed.1

theorem Exact.applyBinary {op : BinaryOp} {left right e : Expr}
    {p : Position} (hleft : left.Exact d a) (hright : right.Exact d a)
    (h : left.applyBinary op right p = .ok e) : e.Exact d a := by
  obtain ⟨left', right', result, ho, rfl⟩ := applyBinary_eq_ok h
  refine .of_typed ?_ rfl
  cases ho with
  | shift hop hl hr => exact ⟨hleft.typed, hright.typed, _, .shift hop hl hr, .refl _⟩
  | @member _ _ _ element bounds hty hl =>
    have ht : element.Tame d := Ty.Tame.array.mp (hty ▸ hright.typed.tame)
    obtain ⟨hl', hlty⟩ := hleft.typed.coerce ht hl
    refine ⟨hl', hright.typed, .boolean, ?_, .refl _⟩
    rw [hlty, hty]
    exact .member
  | @common _ _ _ _ _ operand _ hop hl hr =>
    have ht : operand.Tame d := by
      rcases operandTypes?_operand hop with h | h | ⟨b, h⟩
      · exact h ▸ hleft.typed.tame
      · exact h ▸ hright.typed.tame
      · exact h ▸ .basic b
    obtain ⟨hl', hlty⟩ := hleft.typed.coerce ht hl
    obtain ⟨hr', hrty⟩ := hright.typed.coerce ht hr
    refine ⟨hl', hr', _, ?_, .refl _⟩
    rw [hlty, hrty]
    exact .common (BinaryOp.result?_of_operandTypes? hop)

theorem Exact.construct {items : List SetItem} {e : Expr} {p : Position}
    (hitems : ∀ i ∈ items, ∀ e ∈ i.ends, e.Exact d a)
    (hsingle : d.takesRanges = false → ∀ i ∈ items, i.isSingle)
    (h : SetItem.construct items p = .ok e) :
    e.Exact d a := by
  obtain ⟨element, es, hty, hes, rfl⟩ := SetItem.construct_eq_ok h
  have ht : element.Tame d := by
    rcases SetItem.elementType_mem hty with rfl | h | ⟨e, he, rfl⟩
    · exact .any
    · cases h
    · obtain ⟨i, hi, he⟩ := List.mem_flatMap.mp he
      exact (hitems i hi e he).typed.tame
  refine .of_typed ⟨element, .unbounded, ht, fun _ hopen => ?_, itemsTyped_iff.mpr ?_, .refl _⟩ rfl
  · cases hopen
  · clear hty h
    induction hes with
    | nil => simp
    | @cons i e items es hfits _ ih =>
      obtain ⟨hi, hitems⟩ := List.forall_mem_cons.mp hitems
      refine List.forall_mem_cons.mpr ⟨?_, ih hitems fun hb j hj =>
        hsingle hb j (List.mem_cons_of_mem _ hj)⟩
      cases hfits with
      | single he =>
        obtain ⟨he', hty⟩ := (hi _ (by simp [SetItem.ends])).typed.coerce ht he
        exact .of_typed he' hty
      | range _ hl hh =>
        obtain ⟨hl', hlty⟩ := (hi _ (by simp [SetItem.ends])).typed.coerce ht hl
        obtain ⟨hh', hhty⟩ := (hi _ (by simp [SetItem.ends])).typed.coerce ht hh
        refine ⟨?_, hl', hlty, hh', hhty, rfl⟩
        cases hd : d.takesRanges with
        | true => rfl
        | false => cases hsingle hd _ List.mem_cons_self

/-- An expression that can be read is typed, in every arena that has grown out of the one where its
names were resolved. -/
theorem Built.exact {ranges : Bool} {ctx : Context} {e : Expr} (h : e.Built ranges ctx)
    (hs : ctx.arena.Sound d) (hn : ctx.arena.Nested)
    (hg : ctx.arena.Grows a) (hranges : d.takesRanges = false → ranges = false) (hc : e.Closes d a) :
    e.Exact d a := by
  have hf := blind_closes a
  induction h with
  | token p h => exact .of_typed (.literal (Token.Kind.literal?_fits h) p) rfl
  | constant p h =>
    refine .of_typed (.literal ?_ p) rfl
    rcases Arena.lookup?_constant h with ⟨s, key, he⟩ | ⟨l, hl, k, hk, rfl⟩
    · exact hs.entities s key _ he
    · exact (hs.libraries l hl).constants k hk
  | «variable» p h =>
    obtain ⟨-, x, hx, rfl⟩ := Arena.lookup?_var hn h
    exact .of_place ⟨Arena.varTy?_eq_some (hg.var hx), (hs.entities _ _ _ hx).2.1⟩
  | @call name args p callee bound ty hargs h ih =>
    obtain ⟨hcallable, hresult, m, hm, hb⟩ := Arena.resolveCall_eq_ok hn h
    have ht := hs.signature hcallable
    have hes : ∀ e ∈ args, e.Exact d a := fun e he => ih e he fun hbounds => by
      have hall := hc hbounds
      simp only [Expr.all, Bool.and_eq_true] at hall
      exact (all_boundAll hf hb (Signature.length_bindAll hm)).mp hall.2 e he
    refine .of_typed ?_ rfl
    rw [Expr.Typed, hg.signature_eq hcallable]
    exact ⟨argsTyped_of_bindAll hm hb hes ht.params ht.further, ty, hresult.symm,
      ht.result ty hresult.symm, .refl _⟩
  | indexed hbase hindex h ihb ihi =>
    obtain ⟨q, -, hall, -⟩ := all_indexed (g := fun _ => true) hf h
    simp only [Closes, hall, Bool.true_and, Bool.and_eq_true] at hc
    exact (ihb fun hb => (hc hb).1).indexed (ihi fun hb => (hc hb).2) h
  | dereferenced hpointer h ih =>
    simp only [Closes, all_dereferenced hf h, Bool.true_and] at hc
    obtain ⟨target, hty, rfl⟩ := dereferenced_eq_ok h
    exact .of_place ⟨(ih hc).typed, hty⟩
  | address htarget h ih =>
    refine (ih fun hb => ?_).addressOf h hc
    have hall := hc hb
    rw [all_addressOf hf h, Bool.and_eq_true] at hall
    exact hall.2
  | unary hoperand h ih =>
    have he := ih fun hb => by
      have hall := hc hb
      rw [all_applyUnary h, Bool.and_eq_true] at hall
      exact hall.2
    obtain ⟨hop, rfl⟩ := applyUnary_eq_ok h
    exact .of_typed ⟨he.typed, hop, .refl _⟩ rfl
  | binary hleft hright h ihl ihr =>
    simp only [Closes, all_applyBinary hf h, Bool.and_eq_true] at hc
    exact (ihl fun hb => (hc hb).1.2).applyBinary (ihr fun hb => (hc hb).2) h
  | array hitems hsingle h ih =>
    refine .construct (fun i hi e he => ih i hi e he fun hb => ?_)
      (fun hb => hsingle (hranges hb)) h
    exact (all_construct hf h).mp (hc hb) i hi e he
  | format hvalue hwidth h ihv ihw =>
    simp only [Closes, Expr.all, all_coerce hf h, Bool.and_eq_true] at hc
    obtain ⟨hw, hwty⟩ := (ihw fun hb => (hc hb).2).typed.coerce (.basic _) h
    exact .of_typed (by
      rw [Expr.Typed]
      exact ⟨(ihv fun hb => (hc hb).1.2).typed, hw, hwty, .refl _⟩) rfl
  | formatReal hvalue hwidth h hprecision h' ihv ihw ihp =>
    simp only [Closes, Expr.all, all_coerce hf h, all_coerce hf h', Bool.and_eq_true] at hc
    obtain ⟨hw, hwty⟩ := (ihw fun hb => (hc hb).1.2).typed.coerce (.basic _) h
    obtain ⟨hp, hpty⟩ := (ihp fun hb => (hc hb).2).typed.coerce (.basic _) h'
    exact .of_typed (by
      rw [Expr.Typed]
      exact ⟨(ihv fun hb => (hc hb).1.1.2).typed, hw, hwty, hp, hpty, .refl _⟩) rfl

end Expr

end Pascal
