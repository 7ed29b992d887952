import Pascal.Proofs.Formula.Printed
import Pascal.Proofs.Group.Assemble

/-!
# Formulas as items of a group

In a text that spells a formula, an operand in parentheses is one item of the group around it. A formula
may be spelled with more parentheses than it is written with, but not with fewer.
-/

namespace Pascal

open Formula in
/-- The items of a group spell a formula as an operand that needs a rank. The notes are the positions of
the literals, the names and the operators. -/
inductive Spells {ctx : Context} : Nat → Formula ctx Position → List Item → Prop where
  | literal {l : Literal} {p : Position} : Spells 3 (literal l p) [.token ⟨l.kind, p⟩]
  | var {x : ctx.Variable} {p : Position} : Spells 3 (var x p) [.token ⟨.identifier x.name, p⟩]
  | unary {op : UnaryOp} {e : Formula ctx Position} {p : Position} {items : List Item}
      (he : Spells 3 e items) : Spells 3 (unary op e p) (.token ⟨op.kind, p⟩ :: items)
  | binary {op : BinaryOp} {h : op ≠ .member} {l r : Formula ctx Position} {p : Position}
      {before after : List Item} (hl : Spells op.leftRank l before) (hr : Spells op.rightRank r after) :
      Spells op.rank (binary op h l r p) (before ++ .token ⟨op.kind, p⟩ :: after)
  | paren {s : Formula ctx Position} {opened closed : Token} {items : List Item}
      (hopened : opened.kind = .symbol .leftParen) (hclosed : closed.kind = .symbol .rightParen)
      (hs : Spells 0 s items) : Spells 3 s [.group .paren opened closed items]
  | looser {rank : Nat} {s : Formula ctx Position} {items : List Item} (hrank : rank < 3)
      (hs : Spells (rank + 1) s items) : Spells rank s items

theorem BinaryOp.rank_le (op : BinaryOp) : op.rank ≤ 2 := by
  cases op <;> decide

namespace Formula

variable {ctx : Context} {α : Type}

theorem kindsAt_of_le {s : Formula ctx α} {rank : Nat} (h : rank ≤ s.rank) : s.kindsAt rank = s.kinds := by
  rw [kindsAt, enclosed, if_neg (by simpa using h)]

theorem kindsAt_of_lt {s : Formula ctx α} {rank : Nat} (h : s.rank < rank) :
    s.kindsAt rank = .symbol .leftParen :: s.kinds ++ [.symbol .rightParen] := by
  rw [kindsAt, enclosed, if_pos (by simpa using h)]

theorem length_kindsAt_le (s : Formula ctx α) (rank : Nat) :
    (s.kindsAt rank).length ≤ s.kinds.length + 2 := by
  rcases Nat.lt_or_ge s.rank rank with h | h
  · simp [kindsAt_of_lt h]
  · simp [kindsAt_of_le h]

theorem length_kindsAt_mono (s : Formula ctx α) {loose tight : Nat} (h : loose ≤ tight) :
    (s.kindsAt loose).length ≤ (s.kindsAt tight).length := by
  rcases Nat.lt_or_ge s.rank loose with hlt | hge
  · rw [kindsAt_of_lt hlt, kindsAt_of_lt (Nat.lt_of_lt_of_le hlt h)]
  · rw [kindsAt_of_le hge]
    rcases Nat.lt_or_ge s.rank tight with hlt | hge
    · rw [kindsAt_of_lt hlt, List.cons_append, List.length_cons, List.length_append]
      omega
    · rw [kindsAt_of_le hge]

theorem rank_le (s : Formula ctx α) : s.rank ≤ 3 := by
  cases s with
  | binary op _ _ _ _ => exact Nat.le_succ_of_le op.rank_le
  | _ => exact Nat.le_refl 3

end Formula

namespace Spells

open GroupKind

variable {ctx : Context} {s : Formula ctx Position} {items : List Item}

/-- What spells a tight operand also spells a loose one. -/
theorem loosen {rank tight : Nat} (hle : rank ≤ tight) (htight : tight ≤ 3) (h : Spells tight s items) :
    Spells rank s items := by
  induction hle with
  | refl => exact h
  | step _ ih => exact ih (by omega) (.looser (by omega) h)

theorem isPlain_literal (l : Literal) : isPlain l.kind := by
  cases l with
  | boolean b => cases b <;> rfl
  | _ => rfl

theorem isPlain_unary (op : UnaryOp) : isPlain op.kind := by
  cases op <;> rfl

theorem isPlain_binary (op : BinaryOp) : isPlain op.kind := by
  cases op <;> rfl

/-- What spells a formula has no errors in it. -/
theorem proper {rank : Nat} (h : Spells rank s items) : ∀ i ∈ items, i.Proper := by
  induction h with
  | literal => exact List.forall_mem_singleton.mpr (.token (isPlain_literal _))
  | var => exact List.forall_mem_singleton.mpr (.token rfl)
  | unary _ ih => exact List.forall_mem_cons.mpr ⟨.token (isPlain_unary _), ih⟩
  | binary _ _ ihl ihr =>
    exact List.forall_mem_append.mpr ⟨ihl, List.forall_mem_cons.mpr ⟨.token (isPlain_binary _), ihr⟩⟩
  | paren hopened hclosed _ ih =>
    refine List.forall_mem_singleton.mpr (.group ?_ ?_ ih)
    · rw [hopened]
      rfl
    · rw [hclosed]
      rfl
  | looser _ _ ih => exact ih

end Spells

namespace Formula

variable {ctx : Context} {α : Type}

/-- The tokens of a formula are those of some items that spell it, apart from the notes. -/
def Spelled (s : Formula ctx α) (rank : Nat) (ts : List Token) : Prop :=
  ∃ s' items, Spells rank s' items ∧ s'.bare = s.bare ∧ Item.tokensOf items = ts

/-- An operand in parentheses is a group. -/
theorem spelled_kindsAt {s : Formula ctx α} {rank : Nat} {ts : List Token} (hrank : rank ≤ 3)
    (hs : ∀ ts : List Token, ts.map (·.kind) = s.kinds → s.Spelled s.rank ts)
    (hts : ts.map (·.kind) = s.kindsAt rank) : s.Spelled rank ts := by
  rcases Nat.lt_or_ge s.rank rank with hlt | hge
  · rw [kindsAt_of_lt hlt] at hts
    obtain ⟨opening, closing, rfl, hopening, hclosing⟩ := List.map_eq_append_iff.mp hts
    obtain ⟨opened, inner, rfl, hopened, hinner⟩ := List.map_eq_cons_iff.mp hopening
    obtain ⟨closed, rfl, hclosed⟩ := List.map_eq_singleton_iff.mp hclosing
    obtain ⟨s', items, hspells, hbare, htokens⟩ := hs inner hinner
    have hparen := Spells.paren hopened hclosed (hspells.loosen (Nat.zero_le _) s.rank_le)
    refine ⟨s', _, hparen.loosen hrank (Nat.le_refl 3), hbare, ?_⟩
    rw [Item.tokensOf_singleton, Item.tokens, htokens]
  · rw [kindsAt_of_le hge] at hts
    obtain ⟨s', items, hspells, hbare, htokens⟩ := hs ts hts
    exact ⟨s', items, hspells.loosen hge s.rank_le, hbare, htokens⟩

/-- The tokens that a formula is written with spell it. -/
theorem spelled_kinds (s : Formula ctx α) {ts : List Token} (hts : ts.map (·.kind) = s.kinds) :
    s.Spelled s.rank ts := by
  induction s generalizing ts with
  | literal l _ =>
    obtain ⟨⟨kind, p⟩, rfl, hkind⟩ := List.map_eq_singleton_iff.mp hts
    cases hkind
    exact ⟨.literal l p, _, .literal, rfl, rfl⟩
  | var x _ =>
    obtain ⟨⟨kind, p⟩, rfl, hkind⟩ := List.map_eq_singleton_iff.mp hts
    cases hkind
    exact ⟨.var x p, _, .var, rfl, rfl⟩
  | unary op e _ ih =>
    obtain ⟨⟨kind, p⟩, inner, rfl, hkind, hinner⟩ := List.map_eq_cons_iff.mp hts
    cases hkind
    obtain ⟨e', items, he, hbare, rfl⟩ := spelled_kindsAt (Nat.le_refl 3) (fun _ => ih) hinner
    exact ⟨.unary op e' p, _, .unary he, by rw [bare, bare, hbare], rfl⟩
  | binary op h l r _ ihl ihr =>
    obtain ⟨left, behind, rfl, hleft, hbehind⟩ := List.map_eq_append_iff.mp hts
    obtain ⟨⟨kind, p⟩, right, rfl, hkind, hright⟩ := List.map_eq_cons_iff.mp hbehind
    cases hkind
    have hrank := op.rank_le
    have hleftRank : op.leftRank ≤ 3 := by
      unfold BinaryOp.leftRank
      omega
    have hrightRank : op.rightRank ≤ 3 := Nat.succ_le_succ hrank
    obtain ⟨l', before, hl, hbarel, rfl⟩ := spelled_kindsAt hleftRank (fun _ => ihl) hleft
    obtain ⟨r', after, hr, hbarer, rfl⟩ := spelled_kindsAt hrightRank (fun _ => ihr) hright
    refine ⟨.binary op h l' r' p, _, .binary hl hr, by rw [bare, bare, hbarel, hbarer], ?_⟩
    rw [Item.tokensOf_append]
    rfl

end Formula

/-- Parentheses that are not written cannot be left out: no items that spell a formula have fewer tokens
than it is written with. -/
theorem Spells.length_kindsAt_le {ctx : Context} {rank : Nat} {s : Formula ctx Position}
    {items : List Item} (h : Spells rank s items) :
    (s.kindsAt rank).length ≤ (Item.tokensOf items).length := by
  induction h with
  | literal => exact Nat.le_refl 1
  | var => exact Nat.le_refl 1
  | unary _ ih => exact Nat.succ_le_succ ih
  | @binary op _ l r _ before after _ _ ihl ihr =>
    rw [Formula.kindsAt_of_le (Nat.le_refl op.rank), Formula.kinds, Item.tokensOf_append,
      List.length_append, List.length_append]
    exact Nat.add_le_add ihl (Nat.succ_le_succ ihr)
  | @paren s opened closed items _ _ _ ih =>
    rw [Formula.kindsAt_of_le (Nat.zero_le _)] at ih
    rw [Item.tokensOf_singleton, Item.tokens]
    refine Nat.le_trans (Formula.length_kindsAt_le s 3) ?_
    simpa using ih
  | @looser rank s items _ _ ih =>
    exact Nat.le_trans (Formula.length_kindsAt_mono s (Nat.le_succ rank)) ih

end Pascal
