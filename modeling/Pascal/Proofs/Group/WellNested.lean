import Pascal.Group
import Mathlib.Data.List.Basic

/-!
# Well-nested sequences of tokens

The grammar of sequences in which every opener has its closer. A stack of the groups that are open decides
it from left to right.
-/

namespace Pascal

theorem Token.Kind.isKeyword_iff {k : Token.Kind} {w : Keyword} : k.isKeyword w ↔ k = .keyword w := by
  unfold Token.Kind.isKeyword
  split <;> simp_all

theorem Token.Kind.isSymbol_iff {k : Token.Kind} {s : Symbol} : k.isSymbol s ↔ k = .symbol s := by
  unfold Token.Kind.isSymbol
  split <;> simp_all

namespace GroupKind

/-- A token that neither opens nor closes a group. -/
def isPlain (k : Token.Kind) : Bool := (openedBy? k).isNone && !isCloser k

/-- What closes a group opens none. -/
theorem openedBy?_of_closedBy {g : GroupKind} {k : Token.Kind} (h : g.closedBy k) :
    openedBy? k = none ∧ isCloser k = true := by
  cases g with
  | root => cases h
  | begin_ | case | record | class_ | unit =>
    rw [Token.Kind.isKeyword_iff.mp h]
    exact ⟨rfl, rfl⟩
  | repeat_ =>
    rw [Token.Kind.isKeyword_iff.mp h]
    exact ⟨rfl, rfl⟩
  | paren =>
    rw [Token.Kind.isSymbol_iff.mp h]
    exact ⟨rfl, rfl⟩
  | bracket =>
    rw [Token.Kind.isSymbol_iff.mp h]
    exact ⟨rfl, rfl⟩

end GroupKind

open GroupKind

/-- Every opener has a closer that fits it, and what is between them is well nested. -/
inductive WellNested : List Token → Prop where
  | nil : WellNested []
  | plain {t : Token} {ts : List Token} (ht : isPlain t.kind) (hts : WellNested ts) :
      WellNested (t :: ts)
  | nest {opener closer : Token} {kind : GroupKind} {inside after : List Token}
      (hopens : openedBy? opener.kind = some kind) (hcloses : kind.closedBy closer.kind)
      (hinside : WellNested inside) (hafter : WellNested after) :
      WellNested (opener :: inside ++ closer :: after)

/-- An opener and its closer in a sequence of tokens: they fit, and what is between them is well
nested. -/
def MatchingPair (ts : List Token) (kind : GroupKind) (opener closer : Token) : Prop :=
  openedBy? opener.kind = some kind ∧ kind.closedBy closer.kind ∧
    ∃ before inside after, ts = before ++ opener :: inside ++ closer :: after ∧ WellNested inside

namespace WellNested

theorem append {ts us : List Token} (ht : WellNested ts) (hu : WellNested us) :
    WellNested (ts ++ us) := by
  induction ht with
  | nil => exact hu
  | plain ht _ ih => exact .plain ht ih
  | nest hopens hcloses hinside _ _ ih =>
    rw [List.append_assoc]
    exact .nest hopens hcloses hinside ih

end WellNested

/-- The groups that are open behind a token, the innermost first, unless the token closes what is not
the innermost one. -/
def nestStep (open_ : List GroupKind) (t : Token) : Option (List GroupKind) :=
  match openedBy? t.kind with
  | some kind => some (kind :: open_)
  | none =>
    if !isCloser t.kind then some open_
    else match open_ with
      | [] => none
      | kind :: open_ => if kind.closedBy t.kind then some open_ else none

/-- The groups that are open behind some tokens. -/
def nestAll (open_ : List GroupKind) (ts : List Token) : Option (List GroupKind) :=
  ts.foldlM nestStep open_

section

variable {open_ : List GroupKind} {t : Token} {kind : GroupKind}

theorem nestStep_opener (h : openedBy? t.kind = some kind) :
    nestStep open_ t = some (kind :: open_) := by
  unfold nestStep
  rw [h]

theorem nestStep_plain (h : isPlain t.kind) : nestStep open_ t = some open_ := by
  obtain ⟨hopens, hcloses⟩ := Bool.and_eq_true_iff.mp h
  unfold nestStep
  rw [Option.isNone_iff_eq_none.mp hopens]
  exact if_pos hcloses

theorem nestStep_closer (h : kind.closedBy t.kind) :
    nestStep (kind :: open_) t = some open_ := by
  obtain ⟨hopens, hcloser⟩ := openedBy?_of_closedBy h
  simp [nestStep, hopens, hcloser, h]

theorem nestStep_nil_closer (h : kind.closedBy t.kind) : nestStep [] t = none := by
  obtain ⟨hopens, hcloser⟩ := openedBy?_of_closedBy h
  simp [nestStep, hopens, hcloser]

/-- A token is an opener, it is plain, or it closes the innermost group. -/
theorem nestStep_cases {after : List GroupKind} (h : nestStep open_ t = some after) :
    (∃ kind, openedBy? t.kind = some kind ∧ after = kind :: open_) ∨
    (isPlain t.kind ∧ after = open_) ∨
    ∃ kind, kind.closedBy t.kind ∧ open_ = kind :: after := by
  unfold nestStep at h
  cases hopens : openedBy? t.kind with
  | some kind =>
    rw [hopens] at h
    cases h
    exact .inl ⟨kind, rfl, rfl⟩
  | none =>
    rw [hopens] at h
    dsimp only at h
    split at h
    · next hcloser =>
      cases h
      exact .inr (.inl ⟨by rw [isPlain, hopens]; exact hcloser, rfl⟩)
    · split at h
      · cases h
      · next kind rest =>
        split at h
        · next hcloses =>
          cases h
          exact .inr (.inr ⟨kind, hcloses, rfl⟩)
        · cases h

theorem nestAll_cons {ts : List Token} :
    nestAll open_ (t :: ts) = (nestStep open_ t).bind (nestAll · ts) := List.foldlM_cons

theorem nestAll_append {ts us : List Token} :
    nestAll open_ (ts ++ us) = (nestAll open_ ts).bind (nestAll · us) := List.foldlM_append

end

/-- A well-nested sequence leaves open what was open before it. -/
theorem WellNested.nestAll {ts : List Token} (h : WellNested ts) (open_ : List GroupKind) :
    nestAll open_ ts = some open_ := by
  induction h generalizing open_ with
  | nil => rfl
  | plain ht _ ih =>
    rw [nestAll_cons, nestStep_plain ht]
    exact ih open_
  | nest hopens hcloses _ _ ihinside ihafter =>
    rw [List.cons_append, nestAll_cons, nestStep_opener hopens, Option.bind_some, nestAll_append,
      ihinside, Option.bind_some, nestAll_cons, nestStep_closer hcloses]
    exact ihafter open_

/-- Tokens that close some open groups one after the other, with well-nested sequences in between. -/
def ClosesAll : List GroupKind → List Token → Prop
  | [], ts => WellNested ts
  | kind :: open_, ts => ∃ inside closer after, ts = inside ++ closer :: after ∧
      WellNested inside ∧ kind.closedBy closer.kind ∧ ClosesAll open_ after

theorem ClosesAll.prepend {open_ : List GroupKind} {ts us : List Token} (ht : WellNested ts)
    (h : ClosesAll open_ us) : ClosesAll open_ (ts ++ us) := by
  cases open_ with
  | nil => exact ht.append h
  | cons kind open_ =>
    obtain ⟨inside, closer, after, rfl, hinside, hcloses, hafter⟩ := h
    exact ⟨ts ++ inside, closer, after, by simp, ht.append hinside, hcloses, hafter⟩

/-- What leaves no group open closes all that were open before. -/
theorem closesAll_of_nestAll {open_ : List GroupKind} {ts : List Token}
    (h : nestAll open_ ts = some []) : ClosesAll open_ ts := by
  induction ts generalizing open_ with
  | nil =>
    cases h
    exact .nil
  | cons t ts ih =>
    rw [nestAll_cons] at h
    obtain ⟨after, hstep, hafter⟩ := Option.bind_eq_some_iff.mp h
    rcases nestStep_cases hstep with ⟨kind, hopens, rfl⟩ | ⟨hplain, rfl⟩ | ⟨kind, hcloses, rfl⟩
    · obtain ⟨inside, closer, rest, rfl, hinside, hcloses, hrest⟩ := ih hafter
      have hpair : WellNested (t :: inside ++ [closer]) := .nest hopens hcloses hinside .nil
      simpa using hrest.prepend hpair
    · exact (ih hafter).prepend (.plain hplain .nil)
    · exact ⟨[], t, ts, rfl, .nil, hcloses, ih hafter⟩

/-- A sequence is well nested if no group is left open and none is closed out of turn. -/
theorem wellNested_iff {ts : List Token} : WellNested ts ↔ nestAll [] ts = some [] :=
  ⟨fun h => h.nestAll [], closesAll_of_nestAll⟩

/-- An opener has one closer only. -/
theorem WellNested.unique {inside inside' after after' : List Token} {closer closer' : Token}
    {kind kind' : GroupKind} (h : WellNested inside) (h' : WellNested inside')
    (hcloses : kind.closedBy closer.kind) (hcloses' : kind'.closedBy closer'.kind)
    (heq : inside ++ closer :: after = inside' ++ closer' :: after') :
    inside = inside' ∧ closer = closer' ∧ after = after' := by
  -- the closer is not inside of what is well nested
  have hnot : ∀ {ts us : List Token} {t : Token} {kind : GroupKind}, WellNested ts →
      kind.closedBy t.kind → ¬ WellNested (ts ++ t :: us) := by
    intro ts us t kind ht hc hall
    have hrun := hall.nestAll []
    rw [nestAll_append, ht.nestAll, Option.bind_some, nestAll_cons, nestStep_nil_closer hc] at hrun
    cases hrun
  rcases List.append_eq_append_iff.mp heq with ⟨more, rfl, hmore⟩ | ⟨more, rfl, hmore⟩
  · cases more with
    | nil => simpa using hmore
    | cons t more =>
      rw [List.cons_append, List.cons.injEq] at hmore
      exact absurd (hmore.1 ▸ h') (hnot h hcloses)
  · cases more with
    | nil => simpa [eq_comm] using hmore
    | cons t more =>
      rw [List.cons_append, List.cons.injEq] at hmore
      exact absurd (hmore.1 ▸ h) (hnot h' hcloses')

end Pascal
