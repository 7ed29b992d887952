import Pascal.Parse.Cursor

/-!
# What a reader leaves behind

`p.Yields I Q` says that whenever `p` succeeds on a cursor with `I`, its result has `Q` and the cursor
still has `I`. Reading only ever passes over the first item or looks into a group, so it keeps every
`I` that a `Guard` describes.
-/

namespace Pascal

namespace Item

def isArrayWord : Item → Bool
  | .token t => t.kind.isKeyword .array
  | _ => false

def isDots : Item → Bool
  | .token t => t.kind.isSymbol .dotDot
  | _ => false

mutual

/-- Whether no array constructor in an item holds a range: a bracket group with `..` among its items is
the bounds of an array type, and stands behind `array`. -/
def isRangeFree (behindArray : Bool) : Item → Bool
  | .group kind _ _ items =>
    (behindArray || kind != .bracket || !items.any isDots) && areRangeFree false items
  | _ => true

def areRangeFree (behindArray : Bool) : List Item → Bool
  | [] => true
  | i :: is => i.isRangeFree behindArray && areRangeFree i.isArrayWord is

end

end Item

namespace Cursor

/-- With `ranges = false`, what a cursor has before it holds no range in an array constructor. -/
def Fair (ranges : Bool) (c : Cursor) : Prop := ranges = false → Item.areRangeFree false c.items

/-- The same, and with `ranges = false` there is no `..` at the cursor's own level. -/
def Single (ranges : Bool) (c : Cursor) : Prop :=
  c.Fair ranges ∧ (ranges = false → c.items.any Item.isDots = false)

/-- The cursor behind the next item. -/
def behind (c : Cursor) : Cursor := { c with items := c.items.tail }

/-- Words that mean something for what comes behind them: the brackets behind `array` are bounds, and
the names behind `uses` are those of units. -/
def IsMark (k : Option Token.Kind) : Prop := k = some (.keyword .array) ∨ k = some (.keyword .uses)

/-- A condition on cursors that is kept behind everything but marks, and behind `array` and its bounds,
and that makes what is in the next group fair. -/
structure Guard (ranges : Bool) (I : Cursor → Prop) : Prop where
  behind : ∀ {c : Cursor}, I c → ¬IsMark c.kind? → I c.behind
  array : ∀ {c : Cursor}, I c → c.kind? = some (.keyword .array) →
    (∀ opened closed items rest, c.behind.items ≠ .group .bracket opened closed items :: rest) →
      I c.behind
  bounds : ∀ {c : Cursor} {opened closed items rest}, I c → c.kind? = some (.keyword .array) →
    c.behind.items = .group .bracket opened closed items :: rest →
      Fair ranges ⟨items, closed⟩ ∧ I c.behind.behind
  group : ∀ {c : Cursor} {k opened closed items rest},
    I c → c.items = .group k opened closed items :: rest → Fair ranges ⟨items, closed⟩
  bracket : ∀ {c : Cursor} {opened closed items rest},
    I c → c.items = .group .bracket opened closed items :: rest → Single ranges ⟨items, closed⟩

private theorem isArrayWord_of_kind {c : Cursor} {i : Item} {is : List Item} (h : c.items = i :: is)
    (hk : c.kind? ≠ some (.keyword .array)) : i.isArrayWord = false := by
  cases i with
  | token t =>
    simp only [Cursor.kind?, h, ne_eq, Option.some.injEq] at hk
    simp only [Item.isArrayWord, Token.Kind.isKeyword]
    split
    · next w hw => exact decide_eq_false fun he => hk (by rw [hw, he])
    · rfl
  | group => rfl
  | error => rfl

/-- Behind `array` brackets may hold bounds. -/
private theorem areRangeFree_behind {ranges : Bool} {c : Cursor} (h : c.Fair ranges)
    (hk : c.kind? = some (.keyword .array)) :
    ranges = false → Item.areRangeFree true c.behind.items := by
  intro hr
  have h := h hr
  obtain ⟨items, closed⟩ := c
  cases items with
  | nil => cases hk
  | cons i is =>
    cases i with
    | token t =>
      have ht : t.kind = .keyword .array := by simpa [Cursor.kind?] using hk
      simpa [Cursor.behind, Item.areRangeFree, Item.isRangeFree, Item.isArrayWord, ht,
        Token.Kind.isKeyword] using h
    | group | error => cases hk

theorem Fair.behind {ranges : Bool} {c : Cursor} (h : c.Fair ranges)
    (hk : c.kind? ≠ some (.keyword .array)) : c.behind.Fair ranges := by
  intro hr
  have h := h hr
  cases hc : c.items with
  | nil => simp [Cursor.behind, hc, Item.areRangeFree]
  | cons i is =>
    simp only [hc, Item.areRangeFree, Bool.and_eq_true, isArrayWord_of_kind hc hk] at h
    simpa [Cursor.behind, hc] using h.2

theorem guard_fair (ranges : Bool) : Guard ranges (Fair ranges) where
  behind h hk := h.behind fun he => hk (.inl he)
  array {c} h hk hnone hr := by
    have h := areRangeFree_behind h hk hr
    rcases hc : c.behind.items with _ | ⟨_ | ⟨kind, opened, closed, items⟩ | _, rest⟩
    · rfl
    · rwa [hc] at h
    · have hkind : kind ≠ .bracket := by
        rintro rfl
        exact hnone opened closed items rest hc
      simpa [hc, Item.areRangeFree, Item.isRangeFree, hkind] using h
    · rwa [hc] at h
  bounds {c _ _ _ _} h hk hc := by
    refine ⟨fun hr => ?_, fun hr => ?_⟩ <;> have h := areRangeFree_behind h hk hr <;>
      simp only [hc, Item.areRangeFree, Item.isRangeFree, Bool.and_eq_true] at h
    · exact h.1.2
    · rw [behind, hc]
      exact h.2
  group {c _ _ _ _ _} h hc hr := by
    have h := h hr
    simp only [hc, Item.areRangeFree, Item.isRangeFree, Bool.and_eq_true] at h
    exact h.1.2
  bracket {c _ _ _ _} h hc := by
    refine ⟨fun hr => ?_, fun hr => ?_⟩ <;> have h := h hr <;>
      simp only [hc, Item.areRangeFree, Item.isRangeFree, Bool.and_eq_true] at h
    · exact h.1.2
    · simpa using h.1.1

private theorem any_isDots_behind {c : Cursor} (h : c.items.any Item.isDots = false) :
    c.behind.items.any Item.isDots = false := by
  cases hc : c.items <;> simp_all [Cursor.behind]

theorem guard_single (ranges : Bool) : Guard ranges (Single ranges) where
  behind {c} h hk := by
    refine ⟨(guard_fair ranges).behind h.1 hk, fun hr => ?_⟩
    exact any_isDots_behind (h.2 hr)
  array h hk hnone :=
    ⟨(guard_fair ranges).array h.1 hk hnone, fun hr => any_isDots_behind (h.2 hr)⟩
  bounds h hk hc :=
    have hbounds := (guard_fair ranges).bounds h.1 hk hc
    ⟨hbounds.1, hbounds.2, fun hr => any_isDots_behind (any_isDots_behind (h.2 hr))⟩
  group h hc := (guard_fair ranges).group h.1 hc
  bracket h hc := (guard_fair ranges).bracket h.1 hc

/-- There is always a fair way to look at a cursor where ranges are allowed. -/
theorem fair_true (c : Cursor) : c.Fair true := fun h => by cases h

/-- Where ranges are allowed, a guard is whatever is kept behind everything but `uses`. -/
theorem guard_true {J : Cursor → Prop}
    (hJ : ∀ {c : Cursor}, J c → c.kind? ≠ some (.keyword .uses) → J c.behind) : Guard true J where
  behind h hk := hJ h fun he => hk (.inr he)
  array h hk _ := hJ h (by simp [hk])
  bounds {c _ _ _ _} h hk hc := by
    have hgroup : c.behind.kind? = none := by simp [Cursor.kind?, hc]
    have hbehind : J c.behind := hJ h (by simp [hk])
    exact ⟨fair_true _, hJ hbehind (by simp [hgroup])⟩
  group _ _ := fair_true _
  bracket _ _ := ⟨fair_true _, by simp⟩

end Cursor

namespace Parser

variable {α β : Type} {I : Cursor → Prop} {p : Parser α} {Q R : α → Prop}

/-- What `p` gives when it succeeds on a cursor with `P`, and what then holds of the cursor. -/
def Meets (P : Cursor → Prop) (p : Parser α) (Q : α → Cursor → Prop) : Prop :=
  ∀ ⦃c a c'⦄, P c → p c = .ok (a, c') → Q a c'

/-- Every result of `p` has `Q`, and `p` keeps `I`. -/
def Yields (I : Cursor → Prop) (p : Parser α) (Q : α → Prop) : Prop :=
  p.Meets I fun a c => Q a ∧ I c

theorem pure_apply (a : α) (c : Cursor) : (Pure.pure a : Parser α) c = .ok (a, c) := rfl

theorem bind_eq_ok_iff {p : Parser α} {f : α → Parser β} {b : β} {c c' : Cursor} :
    (p >>= f) c = .ok (b, c') ↔ ∃ a c₁, p c = .ok (a, c₁) ∧ f a c₁ = .ok (b, c') := by
  change (p c >>= fun r => f r.1 r.2) = _ ↔ _
  cases p c with
  | error e => simp [Bind.bind, Except.bind]
  | ok r =>
    constructor
    · exact fun h => ⟨r.1, r.2, rfl, h⟩
    · rintro ⟨a, c₁, ⟨⟩, h⟩
      exact h

theorem check_eq_ok {r : Checked α} {a : α} {c c' : Cursor} :
    check r c = .ok (a, c') ↔ r = .ok a ∧ c' = c := by
  cases r <;> simp [check, Bind.bind, Except.bind, Pure.pure, Except.pure, eq_comm]

theorem Meets.bind {P : Cursor → Prop} {S : α → Cursor → Prop} {T : β → Cursor → Prop}
    {f : α → Parser β} (hp : p.Meets P S) (hf : ∀ a, (f a).Meets (S a) T) :
    (p >>= f).Meets P T := by
  intro c b c' hc h
  obtain ⟨a, c₁, hr, h⟩ := bind_eq_ok_iff.mp h
  exact hf a (hp hc hr) h

/-- What is known without a cursor may be taken apart. -/
theorem Meets.of_prop {A : Prop} {S : α → Cursor → Prop} (h : A → p.Meets (fun _ => True) S) :
    p.Meets (fun _ => A) S :=
  fun _ _ _ hc hr => h hc trivial hr

theorem Meets.of_and {P : Cursor → Prop} {A : Prop} {S : α → Cursor → Prop}
    (h : A → p.Meets P S) : p.Meets (fun c => P c ∧ A) S :=
  fun _ _ _ hc hr => h hc.2 hc.1 hr

theorem Meets.of_exists {ι : Type} {P : ι → Cursor → Prop} {A : ι → Prop} {S : α → Cursor → Prop}
    (h : ∀ i, A i → p.Meets (P i) S) : p.Meets (fun c => ∃ i, P i c ∧ A i) S :=
  fun _ _ _ ⟨i, hc, hi⟩ hr => h i hi hc hr

theorem Meets.pure {P : Cursor → Prop} {S : α → Cursor → Prop} {a : α} (h : ∀ c, P c → S a c) :
    (Pure.pure a : Parser α).Meets P S := by
  intro c b c' hc hr
  simp only [pure_apply, Except.ok.injEq, Prod.mk.injEq] at hr
  obtain ⟨rfl, rfl⟩ := hr
  exact h c hc

theorem Yields.bind_meets {f : α → Parser β} {S : β → Cursor → Prop} (hp : p.Yields I Q)
    (hf : ∀ a, Q a → (f a).Meets I S) : (p >>= f).Meets I S :=
  Meets.bind hp fun a _ _ _ hc h => hf a hc.1 hc.2 h

theorem Yields.bind {f : α → Parser β} {S : β → Prop} (hp : p.Yields I Q)
    (hf : ∀ a, Q a → (f a).Yields I S) : (p >>= f).Yields I S :=
  hp.bind_meets hf

/-- More may be known of the cursor before. -/
theorem Yields.given {C : Cursor → Prop} (hp : p.Yields I Q) :
    p.Meets (fun c => I c ∧ C c) (fun a c => Q a ∧ I c) :=
  fun _ _ _ hc h => hp hc.1 h

theorem Yields.pure {a : α} (h : Q a) : (Pure.pure a : Parser α).Yields I Q :=
  Meets.pure fun _ hc => ⟨h, hc⟩

theorem Yields.mono (hp : p.Yields I Q) (h : ∀ a, Q a → R a) : p.Yields I R :=
  fun _ _ _ hc hr => ⟨h _ (hp hc hr).1, (hp hc hr).2⟩

theorem Meets.map {P : Cursor → Prop} {S : α → Cursor → Prop} {T : β → Cursor → Prop} {f : α → β}
    (hp : p.Meets P S) (h : ∀ a c, S a c → T (f a) c) : (f <$> p).Meets P T := by
  have he : f <$> p = p >>= fun a => Pure.pure (f a) := by
    rw [bind_pure_comp]
  rw [he]
  exact hp.bind fun a => Meets.pure fun c hc => h a c hc

theorem Yields.map {f : α → β} {S : β → Prop} (hp : p.Yields I Q) (h : ∀ a, Q a → S (f a)) :
    (f <$> p).Yields I S :=
  Meets.map hp fun a _ ha => ⟨h a ha.1, ha.2⟩

theorem Yields.fail {e : CompileError} : (Parser.fail e : Parser α).Yields I Q := by
  intro c a c' _ h
  cases h

theorem Yields.unexpected {wanted : String} : (Parser.unexpected wanted : Parser α).Yields I Q := by
  intro c a c' _ h
  cases h

theorem Yields.check {r : Checked α} : (Parser.check r).Yields I (fun a => r = .ok a) := by
  intro c a c' hc h
  obtain ⟨hr, rfl⟩ := check_eq_ok.mp h
  exact ⟨hr, hc⟩

theorem Yields.pos : Parser.pos.Yields I (fun _ => True) := by
  intro c a c' hc h
  cases h
  exact ⟨trivial, hc⟩

theorem Yields.isDone : Parser.isDone.Yields I (fun _ => True) := by
  intro c a c' hc h
  cases h
  exact ⟨trivial, hc⟩

/-- The kind of the next token is known afterwards. -/
theorem Meets.kind : Parser.kind?.Meets I (fun k c => I c ∧ c.kind? = k) := by
  intro c a c' hc h
  cases h
  exact ⟨hc, rfl⟩

theorem Yields.kind : Parser.kind?.Yields I (fun _ => True) :=
  fun _ _ _ hc h => ⟨trivial, (Meets.kind hc h).1⟩

theorem Yields.atKind {wanted : Token.Kind → Bool} : (Parser.at_ wanted).Yields I (fun _ => True) :=
  Yields.kind.bind fun _ _ => .pure trivial

theorem Yields.identifier? : Parser.identifier?.Yields I (fun _ => True) :=
  Yields.kind.bind fun _ _ => .pure trivial

/-- A wanted token is passed over, and all else is left. -/
theorem Meets.eat {P : Cursor → Prop} {S : Bool → Cursor → Prop} {wanted : Token.Kind → Bool}
    (hyes : ∀ {c k}, P c → c.kind? = some k → wanted k → S true c.behind)
    (hno : ∀ {c}, P c → S false c) :
    Parser.Meets P (do
      if ← at_ wanted then
        skip
        return true
      return false) S := by
  intro c a c' hc h
  have hkind : at_ wanted c = .ok (c.kind?.any wanted, c) := by
    cases hk : c.kind? <;> simp [at_, kind?, hk, Bind.bind, StateT.bind, Except.bind, pure_apply]
  simp only [Bind.bind, StateT.bind, hkind, Except.bind] at h
  cases hk : c.kind? with
  | none =>
    simp only [hk, Option.any_none] at h
    cases h
    exact hno hc
  | some k =>
    simp only [hk, Option.any_some] at h
    cases hb : wanted k with
    | false =>
      simp only [hb] at h
      cases h
      exact hno hc
    | true =>
      simp only [hb] at h
      cases h
      exact hyes hc hk hb

/-- An identifier is passed over. -/
theorem Meets.identifier {P : Cursor → Prop} {S : String × Position → Cursor → Prop}
    (h : ∀ {c name}, P c → c.kind? = some (.identifier name) → ∀ pos, S (name, pos) c.behind) :
    Parser.identifier.Meets P S := by
  have hname : Parser.identifier?.Meets P
      (fun name c => P c ∧ ∀ n, name = some n → c.kind? = some (.identifier n)) := by
    refine Meets.bind (Meets.kind (I := P)) fun k => ?_
    refine Meets.pure fun c hc => ⟨hc.1, fun n hn => ?_⟩
    rw [hc.2]
    match k with
    | some (.identifier m) => cases hn; rfl
  refine Meets.bind hname fun name => ?_
  cases name with
  | none => exact fun c a c' _ h => by cases h
  | some n =>
    intro c a c' hc hr
    cases hr
    exact h hc.1 (hc.2 n rfl) _

/-- A group of the kind is passed over, and all else is left. -/
theorem Meets.group? {P : Cursor → Prop} {kind : GroupKind} :
    (Parser.group? kind).Meets P (fun g c => ∃ c₀, P c₀ ∧ (g = none ∧ c = c₀ ∨
      ∃ g' rest, g = some g' ∧ c₀.items = .group kind g'.opened g'.closed g'.items :: rest ∧
        c = c₀.behind)) := by
  intro c a c' hc h
  refine ⟨c, hc, ?_⟩
  simp only [Parser.group?, Parser.peekGroup?, Bind.bind, StateT.bind] at h
  split at h
  · next k opened closed items rest hitems =>
    by_cases hk : k = kind
    · subst hk
      simp only [if_true, Except.bind, Option.isSome_some] at h
      cases h
      exact .inr ⟨_, rest, rfl, hitems, rfl⟩
    · simp only [if_neg hk, Except.bind, Option.isSome_none] at h
      cases h
      exact .inl ⟨rfl, rfl⟩
  · simp only [Except.bind, Option.isSome_none] at h
    cases h
    exact .inl ⟨rfl, rfl⟩

section Guarded

variable {ranges : Bool} (hI : Cursor.Guard ranges I)

include hI

/-- Passing over a token that is known not to be a mark. -/
theorem Meets.skip {k : Option Token.Kind} (hk : ¬Cursor.IsMark k) :
    Parser.skip.Meets (fun c => I c ∧ c.kind? = k) (fun _ c => I c) := by
  intro c a c' hc h
  cases h
  exact hI.behind hc.1 (hc.2 ▸ hk)

/-- Going on behind a token that is known not to be a mark. -/
theorem Yields.skip {k : Option Token.Kind} {q : Parser α} (hk : ¬Cursor.IsMark k)
    (hq : q.Yields I Q) :
    (Parser.skip >>= fun _ => q).Meets (fun c => I c ∧ c.kind? = k) (fun a c => Q a ∧ I c) :=
  (Meets.skip hI hk).bind fun _ => hq

theorem Yields.eatSymbol {s : Symbol} : (Parser.eatSymbol s).Yields I (fun _ => True) := by
  refine Meets.eat (fun hc hk hw => ⟨trivial, hI.behind hc ?_⟩) fun hc => ⟨trivial, hc⟩
  rw [hk]
  rintro (⟨⟨⟩⟩ | ⟨⟨⟩⟩) <;> cases hw

theorem Yields.eatKeyword {w : Keyword} (hw : w ≠ .array ∧ w ≠ .uses) :
    (Parser.eatKeyword w).Yields I (fun _ => True) := by
  refine Meets.eat (fun hc hk hword => ⟨trivial, hI.behind hc ?_⟩) fun hc => ⟨trivial, hc⟩
  rw [hk]
  rintro (⟨⟨⟩⟩ | ⟨⟨⟩⟩)
  · exact hw.1 (of_decide_eq_true hword).symm
  · exact hw.2 (of_decide_eq_true hword).symm

theorem Yields.expectSymbol {s : Symbol} : (Parser.expectSymbol s).Yields I (fun _ => True) := by
  refine (Yields.eatSymbol hI).bind fun b _ => ?_
  cases b
  · exact .unexpected
  · exact .pure trivial

theorem Yields.expectKeyword {w : Keyword} (hw : w ≠ .array ∧ w ≠ .uses) :
    (Parser.expectKeyword w).Yields I (fun _ => True) := by
  refine (Yields.eatKeyword hI hw).bind fun b _ => ?_
  cases b
  · exact .unexpected
  · exact .pure trivial

theorem Yields.identifier : Parser.identifier.Yields I (fun _ => True) :=
  Meets.identifier fun hc hk _ => ⟨trivial, hI.behind hc (by rw [hk]; simp [Cursor.IsMark])⟩

omit hI in
theorem Yields.peekGroup? {kind : GroupKind} :
    (Parser.peekGroup? kind).Yields I (fun _ => True) := by
  intro c a c' hc h
  unfold Parser.peekGroup? at h
  split at h <;> cases h <;> exact ⟨trivial, hc⟩

/-- A group that is passed over is fair inside, and single if it is a bracket group. -/
theorem Yields.group? {kind : GroupKind} :
    (Parser.group? kind).Yields I (fun g => ∀ g', g = some g' → Cursor.Fair ranges (.ofGroup g') ∧
      (kind = .bracket → Cursor.Single ranges (.ofGroup g'))) := by
  intro c a c' hc h
  obtain ⟨c₀, hc₀, ⟨rfl, rfl⟩ | ⟨g, rest, rfl, hitems, rfl⟩⟩ := Meets.group? hc h
  · exact ⟨by simp, hc₀⟩
  · have hkind : c₀.kind? = none := by simp [Cursor.kind?, hitems]
    refine ⟨?_, hI.behind hc₀ (by simp [Cursor.IsMark, hkind])⟩
    rintro g' ⟨⟩
    refine ⟨hI.group hc₀ hitems, ?_⟩
    rintro rfl
    exact hI.bracket hc₀ hitems

/-- Behind the word `array` there may be a bracket group with the bounds. -/
theorem Yields.arrayBounds :
    (Parser.skip >>= fun _ => Parser.group? .bracket).Meets
      (fun c => I c ∧ c.kind? = some (.keyword .array))
      (fun g c => (∀ g', g = some g' → Cursor.Fair ranges (.ofGroup g')) ∧ I c) := by
  intro c a c' hc h
  obtain ⟨hc, hkind⟩ := hc
  have hskip : (Parser.skip >>= fun _ => Parser.group? .bracket) c = Parser.group? .bracket c.behind := rfl
  rw [hskip] at h
  by_cases hbounds : ∃ opened closed items rest,
      c.behind.items = .group .bracket opened closed items :: rest
  · obtain ⟨opened, closed, items, rest, hitems⟩ := hbounds
    obtain ⟨hfair, hbehind⟩ := hI.bounds hc hkind hitems
    simp only [Parser.group?, Parser.peekGroup?, Bind.bind, StateT.bind, hitems, if_true, Except.bind,
      Option.isSome_some] at h
    cases h
    exact ⟨fun g' hg => by cases hg; exact hfair, hbehind⟩
  · have hnone : Parser.group? .bracket c.behind = .ok (none, c.behind) := by
      simp only [Parser.group?, Parser.peekGroup?, Bind.bind, StateT.bind]
      split
      · next k opened closed items rest hitems =>
        have hk : k ≠ .bracket := by
          rintro rfl
          exact hbounds ⟨opened, closed, items, rest, hitems⟩
        simp only [if_neg hk, Except.bind, Option.isSome_none]
        rfl
      · rfl
    rw [hnone] at h
    cases h
    refine ⟨by simp, hI.array hc hkind fun opened closed items rest hitems => ?_⟩
    exact hbounds ⟨opened, closed, items, rest, hitems⟩

theorem Yields.group {kind : GroupKind} :
    (Parser.group kind).Yields I (fun g => Cursor.Fair ranges (.ofGroup g)) := by
  refine (Yields.group? hI).bind fun g hg => ?_
  cases g with
  | none => exact .unexpected
  | some g => exact .pure (hg g rfl).1

end Guarded

/-- A group that must come next was there. -/
theorem Meets.group {P : Cursor → Prop} {kind : GroupKind} :
    (Parser.group kind).Meets P (fun g c => ∃ c₀ rest, P c₀ ∧
      c₀.items = .group kind g.opened g.closed g.items :: rest ∧ c = c₀.behind) := by
  refine Meets.group?.bind fun g => ?_
  cases g with
  | none => exact fun c a c' _ h => by cases h
  | some g =>
    refine Meets.pure fun c hc => ?_
    obtain ⟨c₀, hc₀, ⟨hnone, -⟩ | ⟨g', rest, hg, hitems, hbehind⟩⟩ := hc
    · cases hnone
    · cases hg
      exact ⟨c₀, rest, hc₀, hitems, hbehind⟩

/-- Reading in a group leaves the cursor outside as it is. -/
theorem Meets.within {P J : Cursor → Prop} {S : α → Cursor → Prop} {g : Group} (hg : J (.ofGroup g))
    (hp : p.Meets J S) : (Parser.within g p).Meets P (fun a c => P c ∧ ∃ c', S a c') := by
  intro c a c' hc h
  simp only [Parser.within] at h
  cases hr : p (.ofGroup g) with
  | error e => simp [hr, Bind.bind, Except.bind] at h
  | ok r =>
    simp only [hr, Bind.bind, Except.bind, Pure.pure, Except.pure, Except.ok.injEq,
      Prod.mk.injEq] at h
    obtain ⟨rfl, rfl⟩ := h
    exact ⟨hc, _, hp hg hr⟩

theorem Meets.done {P : Cursor → Prop} : Parser.done.Meets P (fun _ c => P c ∧ c.items = []) := by
  intro c a c' hc h
  unfold Parser.done at h
  split at h
  · next hempty =>
    cases h
    exact ⟨hc, List.isEmpty_iff.mp hempty⟩
  · cases h

theorem Yields.done : Parser.done.Yields I (fun _ => True) :=
  fun _ _ _ hc h => ⟨trivial, (Meets.done hc h).1⟩

/-- Nothing of the group is left. -/
theorem Meets.inside {P J : Cursor → Prop} {S : α → Cursor → Prop} {g : Group} (hg : J (.ofGroup g))
    (hp : p.Meets J S) :
    (Parser.inside g p).Meets P (fun a c => P c ∧ ∃ c', S a c' ∧ c'.items = []) :=
  Meets.within hg (hp.bind fun _ => Meets.done.bind fun _ => Meets.pure fun _ hc => hc)

theorem Yields.inside {J : Cursor → Prop} {g : Group} (hg : J (.ofGroup g)) (hp : p.Yields J Q) :
    (Parser.inside g p).Yields I Q := by
  intro c a c' hc h
  obtain ⟨hc', _, ha, -⟩ := Meets.inside hg hp hc h
  exact ⟨ha.1, hc'⟩

theorem Yields.repeated {p : Parser (Option α)} (hp : p.Yields I (fun a => ∀ b, a = some b → Q b)) :
    (Parser.repeated p).Yields I (fun as => ∀ a ∈ as, Q a) := by
  have hw : ∀ n, (repeatWithin p n).Yields I (fun as => ∀ a ∈ as, Q a) := by
    intro n
    induction n with
    | zero => exact .pure (by simp)
    | succ n ih =>
      refine hp.bind fun a ha => ?_
      cases a with
      | none => exact .pure (by simp)
      | some a =>
        refine ih.bind fun as has => .pure ?_
        intro b hb
        rcases List.mem_cons.mp hb with rfl | hb
        · exact ha b rfl
        · exact has b hb
  exact fun c _ _ hc h => hw _ hc h

/-- What every step keeps is kept by the whole iteration. -/
theorem Meets.iterate {S : α → Cursor → Prop} {step : α → Parser (Option α)}
    (hstep : ∀ a, (step a).Meets (S a) (fun b c => S (b.getD a) c)) (a : α) :
    (Parser.iterate step a).Meets (S a) S := by
  have hw : ∀ n a, (iterateWithin step n a).Meets (S a) S := by
    intro n
    induction n with
    | zero => exact fun a => Meets.pure fun _ hc => hc
    | succ n ih =>
      refine fun a => (hstep a).bind fun b => ?_
      cases b with
      | none => exact Meets.pure fun _ hc => hc
      | some b => exact ih b
  exact fun c _ _ hc h => hw _ a hc h

theorem Yields.iterate {step : α → Parser (Option α)} {a : α} (ha : Q a)
    (hstep : ∀ a, Q a → (step a).Yields I (fun b => ∀ b', b = some b' → Q b')) :
    (Parser.iterate step a).Yields I Q := by
  have hmeets : ∀ a, (step a).Meets (fun c => Q a ∧ I c) (fun b c => Q (b.getD a) ∧ I c) := by
    intro a c b c' hc h
    obtain ⟨hb, hc'⟩ := hstep a hc.1 hc.2 h
    cases b with
    | none => exact ⟨hc.1, hc'⟩
    | some b => exact ⟨hb b rfl, hc'⟩
  exact fun c b c' hc h => Meets.iterate hmeets a ⟨ha, hc⟩ h

theorem Yields.commaSeparated {ranges : Bool} (hI : Cursor.Guard ranges I) (hp : p.Yields I Q) :
    (Parser.commaSeparated p).Yields I (fun as => ∀ a ∈ as, Q a) := by
  refine hp.bind fun first hfirst => ?_
  refine (Yields.repeated (Q := Q) ?_).bind fun others hothers => .pure ?_
  · refine (Yields.eatSymbol hI).bind fun b _ => ?_
    cases b
    · exact .pure (by simp)
    · exact hp.bind fun a ha => .pure (by simpa using ha)
  · simpa using ⟨hfirst, hothers⟩

theorem Yields.commaList {ranges : Bool} (hI : Cursor.Guard ranges I) (hp : p.Yields I Q) :
    (Parser.commaList p).Yields I (fun as => ∀ a ∈ as, Q a) := by
  refine Yields.isDone.bind fun b _ => ?_
  cases b
  · refine hp.bind fun first hfirst => ?_
    refine (Yields.repeated (Q := Q) ?_).bind fun others hothers => .pure ?_
    · refine (Yields.eatSymbol hI).bind fun b _ => ?_
      cases b
      · exact .pure (by simp)
      · refine Yields.isDone.bind fun d _ => ?_
        cases d
        · exact hp.bind fun a ha => .pure (by simpa using ha)
        · exact .pure (by simp)
    · simpa using ⟨hfirst, hothers⟩
  · exact .pure (by simp)

end Parser

end Pascal
