import Pascal.Proofs.Formula.Built
import Pascal.Proofs.Formula.Grouped
import Pascal.Proofs.Parse.Yield

/-!
# Reading formulas back

A parser reads the items that spell an operand and stops in front of an operator that binds less. Where
operators of one rank are chained, the operands so far are never read on their own: behind them the chain
goes on with whatever they have been built to.
-/

namespace Pascal

namespace BinaryOp

variable (op : BinaryOp)

theorem multiplicative?_kind : multiplicative? op.kind = if op.rank = 2 then some op else none := by
  cases op <;> rfl

theorem additive?_kind : additive? op.kind = if op.rank = 1 then some op else none := by
  cases op <;> rfl

theorem relational?_kind : relational? op.kind = if op.rank = 0 then some op else none := by
  cases op <;> rfl

end BinaryOp

/-- What may come behind an operand that needs a rank: nothing, or an operator that binds less. -/
def Follows (rank : Nat) (rest : List Item) : Prop :=
  ∀ i ∈ rest.head?, ∃ (op : BinaryOp) (p : Position), i = .token ⟨op.kind, p⟩ ∧ op.rank < rank

namespace Follows

variable {rank : Nat} {rest : List Item}

theorem nil : Follows rank [] := by
  intro i hi
  cases hi

theorem cons {op : BinaryOp} (h : op.rank < rank) (p : Position) (rest : List Item) :
    Follows rank (.token ⟨op.kind, p⟩ :: rest) := by
  intro i hi
  cases hi
  exact ⟨op, p, rfl, h⟩

theorem mono {tight : Nat} (h : Follows rank rest) (hle : rank ≤ tight) : Follows tight rest := by
  intro i hi
  obtain ⟨op, p, rfl, hrank⟩ := h i hi
  exact ⟨op, p, rfl, Nat.lt_of_lt_of_le hrank hle⟩

/-- There is nothing behind, or there is such an operator. -/
theorem cases (h : Follows rank rest) :
    rest = [] ∨ ∃ (op : BinaryOp) (p : Position) (rest' : List Item),
      rest = .token ⟨op.kind, p⟩ :: rest' ∧ op.rank < rank := by
  cases rest with
  | nil => exact .inl rfl
  | cons i rest =>
    obtain ⟨op, p, rfl, hrank⟩ := h i rfl
    exact .inr ⟨op, p, rest, rfl, hrank⟩

end Follows

namespace Parser

section

variable {α β : Type}

theorem bind_congr {p q : Parser α} {c c' : Cursor} (h : p c = q c') (f : α → Parser β) :
    (p >>= f) c = (q >>= f) c' := by
  simp only [Bind.bind, StateT.bind, h]

theorem bind_ok {p : Parser α} {a : α} {c c' : Cursor} (h : p c = .ok (a, c')) (f : α → Parser β) :
    (p >>= f) c = f a c' :=
  bind_congr (q := Pure.pure a) h f

theorem check_ok (a : α) (c : Cursor) : check (.ok a) c = .ok (a, c) := rfl

theorem check_bind (x : Checked α) (f : α → Checked β) :
    check (x >>= f) = check x >>= fun a => check (f a) := by
  cases x <;> rfl

end

section

variable {α : Type} {f : Token.Kind → Option α} {t : Token} {rest : List Item} {closed : Token}

theorem known?_token {a : α} (h : f t.kind = some a) :
    known? f ⟨.token t :: rest, closed⟩ = .ok (some (a, t.pos), ⟨rest, closed⟩) := by
  have hkind : kind? ⟨.token t :: rest, closed⟩ = .ok (some t.kind, ⟨.token t :: rest, closed⟩) := rfl
  rw [known?, bind_ok hkind, Option.bind_some, h]
  rfl

theorem known?_other (h : f t.kind = none) :
    known? f ⟨.token t :: rest, closed⟩ = .ok (none, ⟨.token t :: rest, closed⟩) := by
  have hkind : kind? ⟨.token t :: rest, closed⟩ = .ok (some t.kind, ⟨.token t :: rest, closed⟩) := rfl
  rw [known?, bind_ok hkind, Option.bind_some, h]
  rfl

theorem known?_follows {op? : Token.Kind → Option BinaryOp} {rank : Nat} (hrest : Follows rank rest)
    (h : ∀ op : BinaryOp, op.rank < rank → op? op.kind = none) :
    known? op? ⟨rest, closed⟩ = .ok (none, ⟨rest, closed⟩) := by
  rcases hrest.cases with rfl | ⟨op, p, rest, rfl, hrank⟩
  · rfl
  · exact known?_other (h op hrank)

end

/-- Some items are read to a result, whatever comes behind them. -/
def Reads (parser : Parser Expr) (rank : Nat) (items : List Item) (x : Checked Expr) : Prop :=
  ∀ rest closed, Follows rank rest → parser ⟨items ++ rest, closed⟩ = check x ⟨rest, closed⟩

/-- One more operator and the operand behind it. -/
def chainStep (op? : Token.Kind → Option BinaryOp) (operand : Parser Expr) (left : Expr) :
    Parser (Option Expr) := do
  match ← known? op? with
  | none => return none
  | some (op, p) =>
    let right ← operand
    return some (← check (left.applyBinary op right p))

/-- Some items are read to the left operand of what a chain goes on with. -/
def Leads (op? : Token.Kind → Option BinaryOp) (operand : Parser Expr) (rank : Nat) (items : List Item)
    (x : Checked Expr) : Prop :=
  ∀ rest closed, Follows (rank + 1) rest → ∃ n, rest.length < n ∧
    chain op? operand ⟨items ++ rest, closed⟩ =
      (check x >>= iterateWithin (chainStep op? operand) n) ⟨rest, closed⟩

section

variable {op? : Token.Kind → Option BinaryOp} {rank : Nat}
  (hop : ∀ op : BinaryOp, op? op.kind = if op.rank = rank then some op else none)
  {operand : Parser Expr} {items : List Item} {x : Checked Expr}

theorem Reads.leads (h : operand.Reads (rank + 1) items x) : Leads op? operand rank items x := by
  intro rest closed hrest
  refine ⟨rest.length + 1, Nat.lt_succ_self _, ?_⟩
  change (operand >>= iterate (chainStep op? operand)) _ = _
  rw [bind_congr (h rest closed hrest)]
  cases x <;> rfl

include hop

theorem Leads.reads (h : Leads op? operand rank items x) : (chain op? operand).Reads rank items x := by
  intro rest closed hrest
  obtain ⟨n, hn, hchain⟩ := h rest closed (hrest.mono (Nat.le_succ rank))
  obtain ⟨n, rfl⟩ := Nat.exists_eq_succ_of_ne_zero (Nat.ne_of_gt (Nat.zero_lt_of_lt hn))
  have hknown : known? op? ⟨rest, closed⟩ = .ok (none, ⟨rest, closed⟩) := by
    refine known?_follows hrest fun op hrank => ?_
    rw [hop, if_neg (Nat.ne_of_lt hrank)]
  have hstep (e : Expr) : chainStep op? operand e ⟨rest, closed⟩ = .ok (none, ⟨rest, closed⟩) := by
    rw [chainStep, bind_ok hknown]
    rfl
  rw [hchain]
  cases x with
  | error e => rfl
  | ok e =>
    rw [bind_ok (check_ok e _), iterateWithin, bind_ok (hstep e)]
    rfl

/-- An operator and the operand behind it join a chain. -/
theorem Leads.append {op : BinaryOp} (hrank : op.rank = rank) {p : Position} {after : List Item}
    {y : Checked Expr} (hl : Leads op? operand rank items x) (hr : operand.Reads (rank + 1) after y) :
    Leads op? operand rank (items ++ .token ⟨op.kind, p⟩ :: after) (do
      let left ← x
      let right ← y
      left.applyBinary op right p) := by
  intro rest closed hrest
  have hbehind : Follows (rank + 1) (.token ⟨op.kind, p⟩ :: (after ++ rest)) :=
    .cons (by omega) p (after ++ rest)
  obtain ⟨n, hn, hchain⟩ := hl _ closed hbehind
  obtain ⟨n, rfl⟩ := Nat.exists_eq_succ_of_ne_zero (Nat.ne_of_gt (Nat.zero_lt_of_lt hn))
  have hlength : rest.length < n := by
    rw [List.length_cons, List.length_append] at hn
    omega
  have hknown : known? op? ⟨.token ⟨op.kind, p⟩ :: (after ++ rest), closed⟩ =
      .ok (some (op, p), ⟨after ++ rest, closed⟩) :=
    known?_token (by rw [hop, if_pos hrank])
  have hstep (left : Expr) :
      chainStep op? operand left ⟨.token ⟨op.kind, p⟩ :: (after ++ rest), closed⟩ =
        (some <$> check (y >>= fun right => left.applyBinary op right p)) ⟨rest, closed⟩ := by
    rw [chainStep, bind_ok hknown]
    dsimp only
    rw [bind_congr (hr rest closed hrest), check_bind, map_bind]
    rfl
  refine ⟨n, hlength, ?_⟩
  rw [List.append_assoc, List.cons_append, hchain, check_bind]
  cases x with
  | error e => rfl
  | ok left =>
    have hright := bind_ok (check_ok left ⟨rest, closed⟩) fun left =>
      check (y >>= fun right => left.applyBinary op right p)
    rw [bind_ok (check_ok left _), iterateWithin, bind_congr (hstep left), bind_congr hright]
    cases y >>= fun right => left.applyBinary op right p <;> rfl

end

section

variable {operand : Parser Expr} {items : List Item} {x : Checked Expr}

/-- A sign applies to what is read behind it. -/
theorem Reads.sign {op : UnaryOp} {p : Position} (h : (signed operand).Reads 3 items x) :
    (signed operand).Reads 3 (.token ⟨op.kind, p⟩ :: items) (do (← x).applyUnary op p) := by
  intro rest closed hrest
  have hknown : known? Sign.ofKind? ⟨.token ⟨op.kind, p⟩ :: (items ++ rest), closed⟩ =
      .ok (some (.op op, p), ⟨items ++ rest, closed⟩) :=
    known?_token (by cases op <;> rfl)
  have hsigns : repeated (known? Sign.ofKind?) ⟨.token ⟨op.kind, p⟩ :: (items ++ rest), closed⟩ =
      (((Sign.op op, p) :: ·) <$> repeated (known? Sign.ofKind?)) ⟨items ++ rest, closed⟩ := by
    unfold repeated
    rw [List.length_cons, repeatWithin, bind_ok hknown]
    rfl
  have hsigned : signed operand ⟨.token ⟨op.kind, p⟩ :: (items ++ rest), closed⟩ =
      (signed operand >>= fun e => check (e.applyUnary op p)) ⟨items ++ rest, closed⟩ := by
    rw [signed, bind_congr hsigns, bind_map_left]
    simp only [applySigns, check_bind, bind_assoc]
    rfl
  rw [List.cons_append, hsigned, check_bind]
  exact bind_congr (h rest closed hrest) _

theorem signed_unsigned {c : Cursor} (h : known? Sign.ofKind? c = .ok (none, c)) :
    signed operand c = operand c := by
  have hsigns : repeated (known? Sign.ofKind?) c = .ok ([], c) := by
    unfold repeated
    rw [repeatWithin, bind_ok h]
    rfl
  rw [signed, bind_ok hsigns]
  exact congrFun (bind_pure operand) c

end

section

variable {ctx : Context} {expression : Parser Expr} {items : List Item} {x : Checked Expr}

theorem reads_literal (l : Literal) (p : Position) :
    (signed (primary ctx expression)).Reads 3 [.token ⟨l.kind, p⟩] (.ok (.literal l.value ⟨l.ty, p⟩)) := by
  intro rest closed _
  have hsign : Sign.ofKind? l.kind = none := by
    cases l with
    | boolean b => cases b <;> rfl
    | _ => rfl
  rw [List.singleton_append, signed_unsigned (known?_other hsign)]
  cases l with
  | boolean b => cases b <;> rfl
  | _ => rfl

/-- No group and no caret come behind an operand. -/
theorem suffix?_follows {rest : List Item} {closed : Token} (hrest : Follows 3 rest) (e : Expr) :
    suffix? expression e ⟨rest, closed⟩ = .ok (none, ⟨rest, closed⟩) := by
  rcases hrest.cases with rfl | ⟨op, p, rest, rfl, -⟩
  · rfl
  · cases op <;> rfl

theorem reads_var (x : ctx.Variable) (p : Position) :
    (signed (primary ctx expression)).Reads 3 [.token ⟨.identifier x.name, p⟩]
      (.ok (.place (.var x.ref) ⟨x.ty, p⟩)) := by
  intro rest closed hrest
  have hpeek : peekGroup? .paren ⟨rest, closed⟩ = .ok (none, ⟨rest, closed⟩) := by
    rcases hrest.cases with rfl | ⟨op, p, rest, rfl, -⟩ <;> rfl
  have hmeaning : ctx.meaning? x.name (none : Option Group).isSome = some (.var x.ref x.ty) := x.known
  have hsuffixes (e : Expr) : suffixes expression e ⟨rest, closed⟩ = .ok (e, ⟨rest, closed⟩) := by
    unfold suffixes iterate
    rw [iterateWithin, bind_ok (suffix?_follows hrest e)]
    rfl
  have hidentifier : identifier ⟨.token ⟨.identifier x.name, p⟩ :: rest, closed⟩ =
      .ok ((x.name, p), ⟨rest, closed⟩) := rfl
  rw [List.singleton_append, signed_unsigned (known?_other rfl)]
  have hdesignator : primary ctx expression ⟨.token ⟨.identifier x.name, p⟩ :: rest, closed⟩ =
      designatorWith ctx expression false ⟨.token ⟨.identifier x.name, p⟩ :: rest, closed⟩ := rfl
  rw [hdesignator, designatorWith, bind_ok hidentifier]
  dsimp only
  rw [bind_ok hpeek, hmeaning]
  exact hsuffixes _

theorem reads_paren {opened closed : Token} (h : expression.Reads 0 items x) :
    (signed (primary ctx expression)).Reads 3 [.group .paren opened closed items] x := by
  intro rest after _
  have hinside : expression ⟨items, closed⟩ = check x ⟨[], closed⟩ := by
    rw [← h [] closed .nil, List.append_nil]
  rw [List.singleton_append, signed_unsigned rfl]
  change inside ⟨.paren, opened, closed, items⟩ expression ⟨rest, after⟩ = _
  unfold inside within
  rw [Cursor.ofGroup, bind_congr hinside]
  cases x <;> rfl

variable {before after : List Item} {y : Checked Expr}

/-- One side of a comparison. -/
def side (ctx : Context) (expression : Parser Expr) : Parser Expr :=
  chain BinaryOp.additive? (chain BinaryOp.multiplicative? (signed (primary ctx expression)))

theorem Reads.noComparison (h : (side ctx expression).Reads 1 items x) :
    (comparison ctx expression).Reads 0 items x := by
  intro rest closed hrest
  have hknown : known? BinaryOp.relational? ⟨rest, closed⟩ = .ok (none, ⟨rest, closed⟩) :=
    known?_follows hrest fun op hrank => absurd hrank (Nat.not_lt_zero _)
  change (side ctx expression >>= _) _ = _
  rw [bind_congr (h rest closed (hrest.mono (Nat.zero_le 1)))]
  cases x with
  | error e => rfl
  | ok e =>
    rw [bind_ok (check_ok e _), bind_ok hknown]
    rfl

theorem Reads.comparison {op : BinaryOp} (hrank : op.rank = 0) {p : Position}
    (hl : (side ctx expression).Reads 1 before x) (hr : (side ctx expression).Reads 1 after y) :
    (comparison ctx expression).Reads 0 (before ++ .token ⟨op.kind, p⟩ :: after) (do
      let left ← x
      let right ← y
      left.applyBinary op right p) := by
  intro rest closed hrest
  have hbehind : Follows 1 (.token ⟨op.kind, p⟩ :: (after ++ rest)) :=
    .cons (by omega) p (after ++ rest)
  have hknown : known? BinaryOp.relational? ⟨.token ⟨op.kind, p⟩ :: (after ++ rest), closed⟩ =
      .ok (some (op, p), ⟨after ++ rest, closed⟩) :=
    known?_token (by rw [BinaryOp.relational?_kind, if_pos hrank])
  rw [List.append_assoc, List.cons_append]
  change (side ctx expression >>= _) _ = _
  rw [bind_congr (hl _ closed hbehind), check_bind]
  cases x with
  | error e => rfl
  | ok left =>
    rw [bind_ok (check_ok left _), bind_ok (check_ok left _), bind_ok hknown, check_bind]
    exact bind_congr (hr rest closed (hrest.mono (Nat.zero_le 1))) _

end

/-- What the reader of operands that need a rank makes of some items. -/
def ReadsAt (ctx : Context) (expression : Parser Expr) (items : List Item) (x : Checked Expr) :
    Nat → Prop
  | 0 => (comparison ctx expression).Reads 0 items x
  | 1 =>
    Leads BinaryOp.additive? (chain BinaryOp.multiplicative? (signed (primary ctx expression))) 1 items x
  | 2 => Leads BinaryOp.multiplicative? (signed (primary ctx expression)) 2 items x
  | _ => (signed (primary ctx expression)).Reads 3 items x

end Parser

theorem Item.weights_append (is js : List Item) : weights (is ++ js) = weights is + weights js := by
  induction is with
  | nil => simp [weights]
  | cons i is ih => simp [weights, ih, Nat.add_assoc]

namespace Parser

/-- Items that spell a formula are read to what is built of it. -/
theorem readsAt_of_spells {ctx : Context} {rank : Nat} {s : Formula ctx Position} {items : List Item}
    (h : Spells rank s items) {depth : Nat} (hdepth : Item.weights items ≤ depth) :
    ReadsAt ctx (expressionWithin ctx depth) items s.build rank := by
  induction h generalizing depth with
  | literal => exact reads_literal _ _
  | var => exact reads_var _ _
  | unary _ ih =>
    rw [Item.weights] at hdepth
    exact (ih (by omega)).sign
  | @binary op _ l r p before after _ _ ihl ihr =>
    rw [Item.weights_append, Item.weights] at hdepth
    have hbefore : Item.weights before ≤ depth := by omega
    have hafter : Item.weights after ≤ depth := by omega
    have hl := ihl hbefore
    have hr := ihr hafter
    have hrank : op.rank = 0 ∨ op.rank = 1 ∨ op.rank = 2 := by
      have hle := op.rank_le
      omega
    rw [BinaryOp.leftRank] at hl
    rw [BinaryOp.rightRank] at hr
    rcases hrank with hop | hop | hop <;> rw [hop] at hl hr ⊢
    · exact .comparison hop (hl.reads BinaryOp.additive?_kind) (hr.reads BinaryOp.additive?_kind)
    · exact hl.append BinaryOp.additive?_kind hop (hr.reads BinaryOp.multiplicative?_kind)
    · exact hl.append BinaryOp.multiplicative?_kind hop hr
  | @paren s opened closed items _ _ _ ih =>
    rw [Item.weights, Item.weight] at hdepth
    obtain ⟨depth, rfl⟩ : ∃ inner, depth = inner + 1 := ⟨depth - 1, by omega⟩
    -- the inner expression is read one level further down
    exact reads_paren (ih (by omega))
  | @looser rank s items hrank _ ih =>
    have hs := ih hdepth
    match rank, hrank with
    | 0, _ => exact .noComparison (hs.reads BinaryOp.additive?_kind)
    | 1, _ => exact Reads.leads (hs.reads BinaryOp.multiplicative?_kind)
    | 2, _ => exact Reads.leads hs

/-- Items that spell a formula are read as an expression up to their end. -/
theorem expression_of_spells {ctx : Context} {s : Formula ctx Position} {items : List Item}
    (h : Spells 0 s items) (closed : Token) :
    expression ctx ⟨items, closed⟩ = s.build.map fun e => (e, ⟨[], closed⟩) := by
  have hreads : (comparison ctx (expressionWithin ctx (Item.weights items))).Reads 0 items s.build :=
    readsAt_of_spells h (Nat.le_refl _)
  have hread := hreads [] closed .nil
  rw [List.append_nil] at hread
  exact hread

end Parser

theorem Nesting.isInner_of_printed {t : Token} {w : List Char} (h : t.kind.Printed w) : isInner t := by
  obtain ⟨kind, p⟩ := t
  cases h <;> rfl

namespace Formula

/-- A text of the tokens of a formula, written with no parentheses but those that it needs, is scanned and
grouped without a fault. Read as an expression up to its end, it gives the typed tree that is built of the
formula from the bottom up, the left operands first, or it fails with the type error that building it
fails with, in both cases apart from the positions. Every formula has such a text. -/
theorem expression_printed {ctx : Context} (s : Formula ctx Position) :
    (∃ source : String, Token.Prints s.kinds source.toList) ∧
    ∀ source : String, Token.Prints s.kinds source.toList → ∀ (sources : Sources) (unit : String),
      let g := Group.assemble sources unit source
      Token.scanAll unit source = .ok (Item.tokensOf g.items ++ [g.closed]) ∧ g.errors = [] ∧
      ∃ x, Parser.expression ctx (.ofGroup g) = x.map (fun e => (e, ⟨[], g.closed⟩)) ∧
        SameTree x s.build := by
  refine ⟨s.exists_source, fun source h sources unit => ?_⟩
  obtain ⟨ts, hscan, hkinds⟩ := h.scanFrom (.start unit)
  obtain ⟨body, last, rfl, hbody, hlast⟩ := List.map_eq_append_iff.mp hkinds
  obtain ⟨eof, rfl, heof⟩ := List.map_eq_singleton_iff.mp hlast
  obtain ⟨s', items, hspells, hbare, rfl⟩ := s.spelled_kinds hbody
  have hinner : ∀ t ∈ Item.tokensOf items, Nesting.isInner t := by
    intro t ht
    obtain ⟨w, hw⟩ := s.printed_kinds t.kind (hbody ▸ List.mem_map_of_mem ht)
    exact Nesting.isInner_of_printed hw
  have hassemble := Group.assemble_tokensOf sources hscan heof hinner hspells.proper
  have hlex : Token.scanAll unit source = .ok (Item.tokensOf items ++ [eof]) := by
    rw [Token.scanAll, Token.scan, hscan, Token.mapM_id_map_ok]
  intro g
  change g = _ at hassemble
  rw [hassemble]
  refine ⟨hlex, Group.errors_eq_nil hspells.proper, s'.build, ?_, sameTree_build hbare⟩
  exact Parser.expression_of_spells (hspells.loosen (Nat.zero_le _) s.rank_le) eof

/-- A sum with a sign, doubled and compared. -/
theorem expression_printed_sum :
    let x : Variable := ⟨"x", .integer, default, none⟩
    let scope : Scope :=
      { kind := .program, name := "test", parent := none, declared := [⟨"x", default, .var x⟩] }
    let ctx : Context := { arena := { scopes := #[scope] }, scope := 0 }
    ∃ (v : ctx.Variable) (p : Position),
      let literal (n : Int32) (h : 0 ≤ n.toInt) : Formula ctx Position := .literal (.integer n h) p
      let sum := Formula.binary .add (by decide) (.var v p) (literal 1 (by decide)) p
      let double := Formula.binary .multiply (by decide) (.unary .negate sum p) (literal 2 (by decide)) p
      let s := Formula.binary .less (by decide) double (.var v p) p
      let source := "- ( x + 1 ) * 2 < x"
      let g := Group.assemble ⟨{}, []⟩ "test" source
      Token.Prints s.kinds source.toList ∧ g.errors = [] ∧
        ∃ e e', s.build = .ok e ∧ Parser.expression ctx (.ofGroup g) = .ok (e', ⟨[], g.closed⟩) ∧
          e'.unplaced = e.unplaced := by
  intro x scope ctx
  have hname : Token.IsName "x".toList := @Token.isName_of_ascii 'x' [] (.inl (by decide)) (by simp)
  have hfree : ∀ k : Keyword, "x".toList.map Char.toLower ≠ k.text.toList := by
    intro k
    cases k <;> decide
  refine ⟨⟨"x", hname, hfree, ⟨0, "x"⟩, .integer, rfl⟩, default, ?_⟩
  intro literal sum double s source g
  have hblank : Token.Separator " ".toList := .mk (by decide) .nil
  have hvar : (Token.Kind.identifier "x").Printed "x".toList := by
    rw [← String.ofList_toList (s := "x")]
    exact .identifier hname hfree
  have hone : (Token.Kind.integer 1).Printed "1".toList := .integer (m := 1) (by decide) .decimal
  have htwo : (Token.Kind.integer 2).Printed "2".toList := .integer (m := 2) (by decide) .decimal
  have hprints : Token.Prints s.kinds source.toList := by
    have h := Token.Prints.cons (.symbol .minus) hblank <| .cons (.symbol .leftParen) hblank <|
      .cons hvar hblank <| .cons (.symbol .plus) hblank <| .cons hone hblank <|
      .cons (.symbol .rightParen) hblank <| .cons (.symbol .star) hblank <| .cons htwo hblank <|
      .cons (.symbol .less) hblank <| .single hvar
    convert h using 1
    · rfl
    · decide +kernel
  obtain ⟨-, herrors, y, hparse, hsame⟩ := (expression_printed s).2 source hprints ⟨{}, []⟩ "test"
  have hok : s.build.isOk := rfl
  refine ⟨hprints, herrors, ?_⟩
  generalize s.build = z at hsame hok
  cases hsame with
  | ok h => exact ⟨_, _, rfl, hparse, h⟩
  | error => cases hok

end Formula

end Pascal
