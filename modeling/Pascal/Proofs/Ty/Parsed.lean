import Pascal.Parse.Ty
import Pascal.Proofs.Formula.Parsed
import Pascal.Proofs.Ty.Printed

/-!
# Reading types back

The name of a type is grouped into items of the root: the bounds of an array are one group of its own. From
these items the type is read that was written.
-/

namespace Pascal

open GroupKind
open Token (Kind)

/-- The tokens of an integer, as items. -/
def Number (n : Int) (items : List Item) : Prop :=
  ∃ ts : List Token, ts.map (·.kind) = Kind.ofInt n ∧ items = ts.map .token

namespace Ty

/-- The items of a group spell a type. -/
inductive Spelled : Ty → List Item → Prop
  | basic {b : Basic} {p : Position} : Spelled (.basic b) [.token ⟨.identifier b.name, p⟩]
  | pointer {target : Ty} {p : Position} {items : List Item} (h : Spelled target items) :
      Spelled (.pointer target) (.token ⟨.symbol .caret, p⟩ :: items)
  | openArray {element : Ty} {p q : Position} {items : List Item} (h : Spelled element items) :
      Spelled (.openArray element) (.token ⟨.keyword .array, p⟩ :: .token ⟨.keyword .of, q⟩ :: items)
  | array {element : Ty} {bounds : Subrange} {p q r : Position} {opened closed : Token}
      {before after items : List Item} (hlower : -2 ^ 63 < bounds.lower.toInt)
      (hsize : 0 < bounds.size) (hopened : opened.kind = .symbol .leftBracket)
      (hclosed : closed.kind = .symbol .rightBracket) (hbefore : Number bounds.lower.toInt before)
      (hafter : Number bounds.upper.toInt after) (h : Spelled element items) :
      Spelled (.array element bounds)
        (.token ⟨.keyword .array, p⟩ ::
          .group .bracket opened closed (before ++ .token ⟨.symbol .dotDot, q⟩ :: after) ::
          .token ⟨.keyword .of, r⟩ :: items)

end Ty

theorem Item.tokensOf_map_token (ts : List Token) : tokensOf (ts.map .token) = ts := by
  induction ts with
  | nil => rfl
  | cons t ts ih => rw [List.map_cons, tokensOf, ih, tokens, List.singleton_append]

namespace Number

variable {n : Int} {items : List Item}

/-- The tokens of an integer are a literal, or a minus sign and a literal. -/
theorem cases (h : Number n items) :
    (0 ≤ n ∧ ∃ p, items = [.token ⟨Kind.ofNat n.natAbs, p⟩]) ∨
    n < 0 ∧ ∃ p q, items = [.token ⟨.symbol .minus, p⟩, .token ⟨Kind.ofNat n.natAbs, q⟩] := by
  obtain ⟨ts, hkinds, rfl⟩ := h
  unfold Kind.ofInt at hkinds
  split at hkinds
  · next hneg =>
    obtain ⟨⟨kind, p⟩, ts, rfl, hkind, hts⟩ := List.map_eq_cons_iff.mp hkinds
    obtain ⟨⟨kind', q⟩, rfl, hkind'⟩ := List.map_eq_singleton_iff.mp hts
    cases hkind
    cases hkind'
    exact .inr ⟨hneg, p, q, rfl⟩
  · next hnonneg =>
    obtain ⟨⟨kind, p⟩, rfl, hkind⟩ := List.map_eq_singleton_iff.mp hkinds
    cases hkind
    exact .inl ⟨by omega, p, rfl⟩

theorem proper (h : Number n items) : ∀ i ∈ items, i.Proper := by
  have hplain : ∀ m, isPlain (Kind.ofNat m) := by
    intro m
    unfold Kind.ofNat
    split <;> rfl
  rcases h.cases with ⟨-, p, rfl⟩ | ⟨-, p, q, rfl⟩
  · exact List.forall_mem_singleton.mpr (.token (hplain _))
  · exact List.forall_mem_cons.mpr ⟨.token rfl, List.forall_mem_singleton.mpr (.token (hplain _))⟩

theorem isInner (h : Number n items) : ∀ t ∈ Item.tokensOf items, Nesting.isInner t := by
  have hliteral : ∀ m p, Nesting.isInner ⟨Kind.ofNat m, p⟩ := by
    intro m p
    unfold Kind.ofNat
    split <;> rfl
  rcases h.cases with ⟨-, p, rfl⟩ | ⟨-, p, q, rfl⟩
  · exact List.forall_mem_singleton.mpr (hliteral _ _)
  · exact List.forall_mem_cons.mpr ⟨rfl, List.forall_mem_singleton.mpr (hliteral _ _)⟩

end Number

namespace Ty

variable {ty : Ty} {items : List Item}

/-- The tokens of the name of a type are those of some items that spell it. -/
theorem Writable.spelled (h : ty.Writable) {ts : List Token} (hts : ts.map (·.kind) = ty.kinds) :
    ∃ items, ty.Spelled items ∧ Item.tokensOf items = ts := by
  induction h generalizing ts with
  | basic b =>
    obtain ⟨⟨kind, p⟩, rfl, hkind⟩ := List.map_eq_singleton_iff.mp hts
    cases hkind
    exact ⟨_, .basic, rfl⟩
  | pointer _ ih =>
    obtain ⟨⟨kind, p⟩, rest, rfl, hkind, hrest⟩ := List.map_eq_cons_iff.mp hts
    cases hkind
    obtain ⟨items, hitems, rfl⟩ := ih hrest
    exact ⟨_, .pointer hitems, rfl⟩
  | openArray _ ih =>
    obtain ⟨⟨kind, p⟩, behind, rfl, hkind, hbehind⟩ := List.map_eq_cons_iff.mp hts
    obtain ⟨⟨kind', q⟩, rest, rfl, hkind', hrest⟩ := List.map_eq_cons_iff.mp hbehind
    cases hkind
    cases hkind'
    obtain ⟨items, hitems, rfl⟩ := ih hrest
    exact ⟨_, .openArray hitems, rfl⟩
  | @array element range hlower hsize _ ih =>
    rw [kinds, Subrange.isOpen_eq_false hsize, if_neg (by simp)] at hts
    obtain ⟨⟨kind, p⟩, behind, rfl, hkind, hbehind⟩ := List.map_eq_cons_iff.mp hts
    obtain ⟨opened, inner, rfl, hopened, hinner⟩ := List.map_eq_cons_iff.mp hbehind
    obtain ⟨bounds, outer, rfl, hbounds, houter⟩ := List.map_eq_append_iff.mp hinner
    obtain ⟨before, others, rfl, hbefore, hothers⟩ := List.map_eq_append_iff.mp hbounds
    obtain ⟨⟨dots, q⟩, after, rfl, hdots, hafter⟩ := List.map_eq_cons_iff.mp hothers
    obtain ⟨closed, last, rfl, hclosed, hlast⟩ := List.map_eq_cons_iff.mp houter
    obtain ⟨⟨kind', r⟩, rest, rfl, hkind', hrest⟩ := List.map_eq_cons_iff.mp hlast
    cases hkind
    cases hkind'
    cases hdots
    obtain ⟨items, hitems, rfl⟩ := ih hrest
    have hspelled := Spelled.array (p := p) (q := q) (r := r) hlower hsize hopened hclosed
      ⟨before, hbefore, rfl⟩ ⟨after, hafter, rfl⟩ hitems
    refine ⟨_, hspelled, ?_⟩
    simp [Item.tokensOf, Item.tokens, Item.tokensOf_map_token]

theorem Spelled.proper (h : ty.Spelled items) : ∀ i ∈ items, i.Proper := by
  induction h with
  | basic => exact List.forall_mem_singleton.mpr (.token rfl)
  | pointer _ ih => exact List.forall_mem_cons.mpr ⟨.token rfl, ih⟩
  | openArray _ ih =>
    exact List.forall_mem_cons.mpr ⟨.token rfl, List.forall_mem_cons.mpr ⟨.token rfl, ih⟩⟩
  | array _ _ hopened hclosed hbefore hafter _ ih =>
    refine List.forall_mem_cons.mpr ⟨.token rfl, List.forall_mem_cons.mpr ⟨.group ?_ ?_ ?_, ?_⟩⟩
    · rw [hopened]
      rfl
    · rw [hclosed]
      rfl
    · exact List.forall_mem_append.mpr
        ⟨hbefore.proper, List.forall_mem_cons.mpr ⟨.token rfl, hafter.proper⟩⟩
    · exact List.forall_mem_cons.mpr ⟨.token rfl, ih⟩

/-- No token in a type marks an end or asks for another text. -/
theorem Spelled.isInner (h : ty.Spelled items) : ∀ t ∈ Item.tokensOf items, Nesting.isInner t := by
  induction h with
  | basic => exact List.forall_mem_singleton.mpr rfl
  | pointer _ ih => exact List.forall_mem_cons.mpr ⟨rfl, ih⟩
  | openArray _ ih => exact List.forall_mem_cons.mpr ⟨rfl, List.forall_mem_cons.mpr ⟨rfl, ih⟩⟩
  | array _ _ hopened hclosed hbefore hafter _ ih =>
    have hbracket : ∀ {t : Token} {s : Symbol}, t.kind = .symbol s → Nesting.isInner t := by
      rintro ⟨kind, p⟩ s rfl
      rfl
    simp only [Item.tokensOf, Item.tokens, Item.tokensOf_append, List.forall_mem_cons,
      List.forall_mem_append, List.cons_append, List.nil_append]
    refine ⟨rfl, hbracket hopened, ⟨⟨hbefore.isInner, rfl, hafter.isInner⟩, ?_⟩, rfl, ih⟩
    exact ⟨hbracket hclosed, by simp⟩

end Ty

/-- A value is an integer of either width. -/
def Value.IsInteger (v : Value) (n : Int) : Prop :=
  (∃ x : Int32, v = .integer x ∧ x.toInt = n) ∨ ∃ x : Int64, v = .long x ∧ x.toInt = n

namespace Literal

/-- The number that a literal stands for. -/
def number? : Literal → Option Int
  | integer n _ => some n.toInt
  | long n _ => some n.toInt
  | _ => none

/-- Every natural number that 64 bits hold has a literal. -/
theorem exists_number {m : Nat} (h : m < Token.word64Limit) :
    ∃ l : Literal, l.kind = Kind.ofNat m ∧ l.number? = some (m : Int) := by
  have hlimits : (Token.word32Limit : Int) = 2 ^ 31 ∧ (Token.word64Limit : Int) = 2 ^ 63 := by decide
  unfold Kind.ofNat
  split
  · next hsmall =>
    have hnumber : (Int32.ofNat m).toInt = m := Int32.toInt_ofNat_of_lt (by omega)
    exact ⟨.integer (Int32.ofNat m) (by omega), rfl, congrArg some hnumber⟩
  · next hlarge =>
    have hnumber : (Int64.ofNat m).toInt = m := Int64.toInt_ofNat_of_lt (by omega)
    exact ⟨.long (Int64.ofNat m) (by omega), rfl, congrArg some hnumber⟩

theorem isInteger_value {l : Literal} {n : Int} (h : l.number? = some n) : l.value.IsInteger n := by
  cases l with
  | integer v _ => exact .inl ⟨v, rfl, Option.some.inj h⟩
  | long v _ => exact .inr ⟨v, rfl, Option.some.inj h⟩
  | _ => cases h

/-- Literals have no signs, so that their opposites fit as well. -/
theorem negate_value {l : Literal} {n : Int} (h : l.number? = some n) :
    ∃ v : Value, Value.unary .negate l.value = .ok v ∧ v.IsInteger (-n) := by
  cases l with
  | integer x hx =>
    cases h
    have hlt := x.toInt_lt
    refine ⟨.integer (Int32.ofInt (-x.toInt)), ?_, .inl ⟨_, rfl, ?_⟩⟩
    · simp only [value, Value.unary, Value.integer?]
      rw [if_pos (by omega)]
      rfl
    · exact Int32.toInt_ofInt_of_le (by omega) (by omega)
  | long x hx =>
    cases h
    have hlimit : (Token.word32Limit : Int) = 2 ^ 31 := by decide
    have hlt := x.toInt_lt
    refine ⟨.long (Int64.ofInt (-x.toInt)), ?_, .inr ⟨_, rfl, ?_⟩⟩
    · simp only [value, Value.unary, Value.long?]
      rw [if_pos (by omega)]
      rfl
    · exact Int64.toInt_ofInt_of_le (by omega) (by omega)
  | _ => cases h

end Literal

namespace Parser

/-- A bound stands in front of two points, or it is the last one. -/
def Delimited (rest : List Item) : Prop :=
  rest = [] ∨ ∃ p rest', rest = .token ⟨.symbol .dotDot, p⟩ :: rest'

section

variable (ctx : Context) {rest : List Item} (closed : Token) (hrest : Delimited rest)

include hrest

theorem expression_literal (l : Literal) (p : Position) :
    expression ctx ⟨.token ⟨l.kind, p⟩ :: rest, closed⟩ =
      .ok (.literal l.value ⟨l.ty, p⟩, ⟨rest, closed⟩) := by
  rcases hrest with rfl | ⟨q, rest, rfl⟩ <;> cases l with
  | boolean b => cases b <;> rfl
  | _ => rfl

theorem expression_negative {l : Literal} {n : Int} (hl : l.number? = some n) (p q : Position) :
    expression ctx ⟨.token ⟨.symbol .minus, p⟩ :: .token ⟨l.kind, q⟩ :: rest, closed⟩ =
      .ok (.unary .negate (.literal l.value ⟨l.ty, q⟩) ⟨l.ty, p⟩, ⟨rest, closed⟩) := by
  rcases hrest with rfl | ⟨r, rest, rfl⟩ <;> cases l with
  | integer | long => rfl
  | _ => cases hl

variable {ctx} in
omit hrest in
theorem constant_ok {e : Expr} {c c' : Cursor} {v : Value} {ty : Ty}
    (h : expression ctx c = .ok (e, c')) (hv : e.evaluate = .ok (v, ty)) :
    constant ctx c = .ok ((v, ty, e.pos), c') := by
  rw [constant, bind_ok h, hv]
  rfl

variable {ctx} in
omit hrest in
theorem integerBound_ok {c c' : Cursor} {v : Value} {ty : Ty} {p : Position} {n : Int64}
    (h : constant ctx c = .ok ((v, ty, p), c')) (hv : v.IsInteger n.toInt) :
    integerBound ctx c = .ok ((n, p), c') := by
  rw [integerBound, bind_ok h]
  rcases hv with ⟨x, rfl, hx⟩ | ⟨x, rfl, hx⟩
  · have hn : x.toInt64 = n := Int64.toInt_inj.mp (x.toInt_toInt64.trans hx)
    rw [← hn]
    rfl
  · rw [← Int64.toInt_inj.mp hx]
    rfl

/-- The tokens of an integer are read to that integer. -/
theorem integerBound_number {n : Int64} {items : List Item} (hlower : -2 ^ 63 < n.toInt)
    (h : Number n.toInt items) :
    ∃ p, integerBound ctx ⟨items ++ rest, closed⟩ = .ok ((n, p), ⟨rest, closed⟩) := by
  have hlimit : (Token.word64Limit : Int) = 2 ^ 63 := by decide
  have hupper := n.toInt_lt
  obtain ⟨l, hkind, hnumber⟩ := Literal.exists_number (m := n.toInt.natAbs) (by omega)
  rcases h.cases with ⟨hnonneg, p, rfl⟩ | ⟨hneg, p, q, rfl⟩ <;> rw [← hkind]
  · have habs : (n.toInt.natAbs : Int) = n.toInt := Int.natAbs_of_nonneg hnonneg
    have hvalue := constant_ok (expression_literal ctx closed hrest l p) rfl
    exact ⟨p, integerBound_ok hvalue (habs ▸ Literal.isInteger_value hnumber)⟩
  · have habs : -(n.toInt.natAbs : Int) = n.toInt := by omega
    obtain ⟨v, hnegate, hv⟩ := Literal.negate_value hnumber
    have hread := expression_negative ctx closed hrest hnumber p q
    have hevaluate : (Expr.unary .negate (.literal l.value ⟨l.ty, q⟩) ⟨l.ty, p⟩).evaluate =
        .ok (v, l.ty) := by
      simp [Expr.evaluate, Expr.fold?, Expr.foldEnds, Expr.fold, Expr.settle, Expr.constant?,
        Expr.literal?, hnegate, Except.toOption, Expr.note]
    exact ⟨p, integerBound_ok (constant_ok hread hevaluate) (habs ▸ hv)⟩

end

section

variable (ctx : Context)

/-- Bounds with two points between them are read to their range. -/
theorem dimension_bounds {bounds : Subrange} {before after : List Item} (p : Position)
    (closed : Token) (hlower : -2 ^ 63 < bounds.lower.toInt) (hsize : 0 < bounds.size)
    (hbefore : Number bounds.lower.toInt before) (hafter : Number bounds.upper.toInt after) :
    dimension ctx ⟨before ++ .token ⟨.symbol .dotDot, p⟩ :: after, closed⟩ =
      .ok (bounds, ⟨[], closed⟩) := by
  have hupper : -2 ^ 63 < bounds.upper.toInt := by
    have hle := Int64.le_iff_toInt_le.mp (Subrange.lower_le_upper hsize)
    omega
  obtain ⟨q, hfirst⟩ := integerBound_number ctx closed (.inr ⟨p, after, rfl⟩) hlower hbefore
  obtain ⟨r, hsecond⟩ := integerBound_number ctx closed (.inl rfl) hupper hafter
  have hdots : expectSymbol .dotDot ⟨.token ⟨.symbol .dotDot, p⟩ :: after, closed⟩ =
      .ok ((), ⟨after, closed⟩) := rfl
  rw [List.append_nil] at hsecond
  rw [dimension, bind_ok hfirst]
  dsimp only
  rw [bind_ok hdots, bind_ok hsecond, Subrange.between?_upper hsize]
  rfl

theorem inside_done {α : Type} {p : Parser α} {a : α} {g : Group} {last : Token}
    (h : p (.ofGroup g) = .ok (a, ⟨[], last⟩)) (c : Cursor) : inside g p c = .ok (a, c) := by
  have hall : (p >>= fun a => done >>= fun _ => Pure.pure a) (.ofGroup g) = .ok (a, ⟨[], last⟩) := by
    rw [bind_ok h]
    rfl
  unfold inside within
  rw [hall]
  rfl

theorem commaSeparated_single {α : Type} {p : Parser α} {a : α} {c : Cursor} {last : Token}
    (h : p c = .ok (a, ⟨[], last⟩)) : commaSeparated p c = .ok ([a], ⟨[], last⟩) := by
  rw [commaSeparated, bind_ok h]
  rfl

/-- The items that spell a type are read to that type. -/
theorem typeWithin_spelled {ctx : Context} (hscope : ∀ b : Basic, ctx.arena.lookupType? ctx.scope b.name = none) {ty : Ty}
    {items : List Item} (h : ty.Spelled items) {n : Nat} (hn : items.length ≤ n) (closed : Token) :
    typeWithin ctx (n + 1) ⟨items, closed⟩ = .ok (ty, ⟨[], closed⟩) := by
  induction h generalizing n with
  | @basic b p =>
    have hword : typeWithin ctx (n + 1) ⟨[.token ⟨.identifier b.name, p⟩], closed⟩ =
        namedType ctx b.name ⟨[.token ⟨.identifier b.name, p⟩], closed⟩ := rfl
    have hpos : pos ⟨[.token ⟨.identifier b.name, p⟩], closed⟩ =
        .ok (p, ⟨[.token ⟨.identifier b.name, p⟩], closed⟩) := rfl
    rw [hword, namedType, bind_ok hpos, hscope]
    cases b <;> rfl
  | @pointer target p items _ ih =>
    obtain ⟨n, rfl⟩ := Nat.exists_eq_add_of_le' (Nat.le_trans (Nat.le_add_left 1 _) hn)
    have hcaret : typeWithin ctx (n + 2) ⟨.token ⟨.symbol .caret, p⟩ :: items, closed⟩ =
        (typeWithin ctx (n + 1) >>= fun target => Pure.pure (.pointer target)) ⟨items, closed⟩ := rfl
    rw [hcaret, bind_ok (ih (Nat.le_of_succ_le_succ hn))]
    rfl
  | @openArray element p q items _ ih =>
    obtain ⟨n, rfl⟩ := Nat.exists_eq_add_of_le' (Nat.le_trans (Nat.le_add_left 1 _) hn)
    have harray : typeWithin ctx (n + 2)
        ⟨.token ⟨.keyword .array, p⟩ :: .token ⟨.keyword .of, q⟩ :: items, closed⟩ =
        (typeWithin ctx (n + 1) >>= fun element => Pure.pure (.openArray element)) ⟨items, closed⟩ := rfl
    rw [harray, bind_ok (ih (by simp only [List.length_cons] at hn; omega))]
    rfl
  | @array element bounds p q r opened closed' before after items hlower hsize _ _ hbefore hafter _ ih =>
    obtain ⟨n, rfl⟩ := Nat.exists_eq_add_of_le' (Nat.le_trans (Nat.le_add_left 1 _) hn)
    have hbounds := dimension_bounds ctx q closed' hlower hsize hbefore hafter
    have hinside := inside_done (g := ⟨.bracket, opened, closed', _⟩) (commaSeparated_single hbounds)
      ⟨.token ⟨.keyword .of, r⟩ :: items, closed⟩
    have harray : typeWithin ctx (n + 2) ⟨.token ⟨.keyword .array, p⟩ ::
          .group .bracket opened closed' (before ++ .token ⟨.symbol .dotDot, q⟩ :: after) ::
          .token ⟨.keyword .of, r⟩ :: items, closed⟩ =
        (inside ⟨.bracket, opened, closed', before ++ .token ⟨.symbol .dotDot, q⟩ :: after⟩
            (commaSeparated (dimension ctx)) >>= fun dimensions => expectKeyword .of >>= fun _ =>
          typeWithin ctx (n + 1) >>= fun element =>
          Pure.pure (dimensions.foldr (fun bounds ty => .array ty bounds) element))
        ⟨.token ⟨.keyword .of, r⟩ :: items, closed⟩ := rfl
    have hof : expectKeyword .of ⟨.token ⟨.keyword .of, r⟩ :: items, closed⟩ =
        .ok ((), ⟨items, closed⟩) := rfl
    have helement := ih (n := n) (by simp only [List.length_cons] at hn; omega)
    rw [harray, bind_ok hinside, bind_ok hof, bind_ok helement]
    rfl

end

end Parser

namespace Ty

/-- The name of a type is read back as that type. In a scope where no declared type has the name of a basic
one, the name of every type that can be written is scanned and grouped without a fault, and read as a type
up to its end: the bounds of all arrays and all open ranges come back as they were. -/
theorem type_printed {ctx : Context} (hscope : ∀ b : Basic, ctx.arena.lookupType? ctx.scope b.name = none)
    {ty : Ty} (h : ty.Writable) (sources : Sources) (unit : String) :
    let g := Group.assemble sources unit ty.name
    Token.scanAll unit ty.name = .ok (Item.tokensOf g.items ++ [g.closed]) ∧ g.errors = [] ∧
      Parser.type ctx (.ofGroup g) = .ok (ty, ⟨[], g.closed⟩) := by
  obtain ⟨ts, q, hscan, hkinds⟩ := h.scans (.start unit)
  obtain ⟨items, hitems, rfl⟩ := h.spelled hkinds
  let eof : Token := ⟨.eof, q⟩
  have hscan : Token.scan unit ty.name = (Item.tokensOf items ++ [eof]).map .ok := by
    rw [Token.scan, ← List.append_nil ty.name.toList, hscan, Token.scanFrom_nil, List.map_append]
    rfl
  have hassemble := Group.assemble_tokensOf sources hscan rfl hitems.isInner hitems.proper
  intro g
  change g = _ at hassemble
  rw [hassemble]
  refine ⟨?_, Group.errors_eq_nil hitems.proper, ?_⟩
  · rw [Token.scanAll, hscan, Token.mapM_id_map_ok]
  · exact Parser.typeWithin_spelled hscope hitems (Nat.le_refl _) eof

/-- A pointer to an open array of arrays with a negative bound and one beyond 32 bits. -/
theorem type_printed_nested :
    let scope : Scope := { kind := .program, name := "test", parent := none }
    let ctx : Context := { arena := { scopes := #[scope] }, scope := 0 }
    let ty : Ty := .pointer (.openArray (.array .double { lower := -2147483648, size := 5368709121 }))
    let g := Group.assemble ⟨{}, []⟩ "test" "^array of array[-2147483648..3221225472] of double"
    (∀ b : Basic, ctx.arena.lookupType? ctx.scope b.name = none) ∧ ty.Writable ∧
      Parser.type ctx (.ofGroup g) = .ok (ty, ⟨[], g.closed⟩) := by
  intro scope ctx ty g
  have hscope : ∀ b : Basic, ctx.arena.lookupType? ctx.scope b.name = none := by
    intro b
    cases b <;> decide +kernel
  have hwritable : ty.Writable :=
    .pointer (.openArray (.array (by decide) (by decide) (.basic .double)))
  have hname : ty.name = "^array of array[-2147483648..3221225472] of double" := by decide +kernel
  have hread := (type_printed hscope hwritable ⟨{}, []⟩ "test").2.2
  rw [hname] at hread
  exact ⟨hscope, hwritable, hread⟩

end Ty

end Pascal
