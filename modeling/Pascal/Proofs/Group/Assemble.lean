import Pascal.Group.Assemble
import Pascal.Proofs.Group.WellNested
import Pascal.Proofs.Token.Scan

/-!
# Groups are the nesting of their tokens

As long as tokens nest well, the groups that are open hold all tokens so far, each group between what
opens and what closes it. The first token that does not fit leaves an error in the root for good.
-/

namespace Pascal

open GroupKind

namespace Item

mutual

/-- The tokens of an item in order. -/
def tokens : Item → List Token
  | token t => [t]
  | group _ opened closed items => opened :: tokensOf items ++ [closed]
  | error _ => []

def tokensOf : List Item → List Token
  | [] => []
  | i :: is => tokens i ++ tokensOf is

end

@[simp] theorem tokensOf_append (is js : List Item) :
    tokensOf (is ++ js) = tokensOf is ++ tokensOf js := by
  induction is with
  | nil => rfl
  | cons i is ih => rw [List.cons_append, tokensOf, tokensOf, ih, List.append_assoc]

@[simp] theorem tokensOf_singleton (i : Item) : tokensOf [i] = i.tokens := List.append_nil _

/-- An item without errors at any level, whose groups are between tokens that open and close them. -/
inductive Proper : Item → Prop where
  | token {t : Token} (h : isPlain t.kind) : Proper (.token t)
  | group {kind : GroupKind} {opened closed : Token} {items : List Item}
      (hopens : openedBy? opened.kind = some kind) (hcloses : kind.closedBy closed.kind)
      (hitems : ∀ i ∈ items, Proper i) : Proper (.group kind opened closed items)

/-- An item is one of some items, or it is nested in one of them. -/
inductive Within (i : Item) : List Item → Prop where
  | here {items : List Item} (h : i ∈ items) : Within i items
  | inside {kind : GroupKind} {opened closed : Token} {inner items : List Item}
      (h : .group kind opened closed inner ∈ items) (hi : Within i inner) : Within i items

theorem wellNested_tokensOf {items : List Item} (h : ∀ i ∈ items, WellNested i.tokens) :
    WellNested (tokensOf items) := by
  induction items with
  | nil => exact .nil
  | cons i items ih =>
    obtain ⟨hi, hitems⟩ := List.forall_mem_cons.mp h
    exact hi.append (ih hitems)

theorem Proper.wellNested {i : Item} (h : i.Proper) : WellNested i.tokens := by
  induction h with
  | token h => exact .plain h .nil
  | group hopens hcloses _ ih => exact .nest hopens hcloses (wellNested_tokensOf ih) .nil

theorem exists_tokensOf_of_mem {i : Item} {items : List Item} (h : i ∈ items) :
    ∃ before after, tokensOf items = before ++ i.tokens ++ after := by
  obtain ⟨is, js, rfl⟩ := List.append_of_mem h
  exact ⟨tokensOf is, tokensOf js, by simp [tokensOf]⟩

theorem tokens_subset_tokensOf {i : Item} {items : List Item} (h : i ∈ items) :
    i.tokens ⊆ tokensOf items := by
  obtain ⟨before, after, htokens⟩ := exists_tokensOf_of_mem h
  simp [htokens]

/-- A group at any level is between a pair of tokens that match. -/
theorem Within.matchingPair {kind : GroupKind} {opened closed : Token} {inner items : List Item}
    (h : Within (.group kind opened closed inner) items) (hitems : ∀ i ∈ items, Proper i) :
    MatchingPair (tokensOf items) kind opened closed := by
  induction h with
  | here h =>
    obtain ⟨before, after, htokens⟩ := exists_tokensOf_of_mem h
    cases hitems _ h with
    | group hopens hcloses hinner =>
      refine ⟨hopens, hcloses, before, tokensOf inner, after, ?_,
        wellNested_tokensOf fun i hi => (hinner i hi).wellNested⟩
      rw [htokens]
      simp [tokens]
  | @inside outer first last _ _ h _ ih =>
    cases hitems _ h with
    | group _ _ hinner =>
      obtain ⟨hopens, hcloses, before, inside, after, hpair, hinside⟩ := ih hinner
      obtain ⟨before', after', htokens⟩ := exists_tokensOf_of_mem h
      refine ⟨hopens, hcloses, before' ++ first :: before, inside, after ++ last :: after', ?_, hinside⟩
      rw [htokens, tokens, hpair]
      simp

end Item

namespace OpenGroup

/-- The tokens of an open group so far. -/
def tokens (g : OpenGroup) : List Token := g.opened :: Item.tokensOf g.items.reverse

end OpenGroup

namespace Nesting

variable {n : Nesting} {ts : List Token} {t : Token}

/-- The kinds of the open groups, the innermost first. -/
def kinds (n : Nesting) : List GroupKind := n.inner.map (·.kind)

/-- Nothing is wrong so far, and the tokens so far are those of the root and of the groups open inside
it. -/
structure Clean (n : Nesting) (ts : List Token) : Prop where
  root : ∀ i ∈ n.root.items, i.Proper
  inner : ∀ g ∈ n.inner, openedBy? g.opened.kind = some g.kind ∧ ∀ i ∈ g.items, i.Proper
  tokens : Item.tokensOf n.root.items.reverse ++ n.inner.reverse.flatMap OpenGroup.tokens = ts

/-- Something went wrong. -/
def Marked (n : Nesting) : Prop := ∃ e, .error e ∈ n.root.items

theorem Clean.add (h : n.Clean ts) {i : Item} (hi : i.Proper) : (n.add i).Clean (ts ++ i.tokens) := by
  obtain ⟨hroot, hinner, htokens⟩ := h
  unfold Nesting.add
  split
  · next hnil =>
    refine ⟨?_, hinner, ?_⟩
    · exact List.forall_mem_cons.mpr ⟨hi, hroot⟩
    · rw [hnil] at htokens ⊢
      simpa [OpenGroup.add] using htokens
  · next g gs hcons =>
    rw [hcons] at hinner htokens
    obtain ⟨hg, hgs⟩ := List.forall_mem_cons.mp hinner
    refine ⟨hroot, List.forall_mem_cons.mpr ⟨?_, hgs⟩, ?_⟩
    · exact ⟨hg.1, List.forall_mem_cons.mpr ⟨hi, hg.2⟩⟩
    · rw [← htokens]
      simp [OpenGroup.add, OpenGroup.tokens]

theorem kinds_add (n : Nesting) (i : Item) : (n.add i).kinds = n.kinds := by
  unfold Nesting.add kinds
  split
  · next hnil => rw [hnil]
  · next hcons => rw [hcons]; rfl

theorem feed_opener {kind : GroupKind} (h : openedBy? t.kind = some kind) :
    n.feed t = ({ n with inner := ⟨kind, t, []⟩ :: n.inner }, .go) := by
  unfold Nesting.feed
  rw [h]

theorem feed_plain (h : isPlain t.kind) : n.feed t = (n.add (.token t), .go) := by
  obtain ⟨hopens, hcloser⟩ := Bool.and_eq_true_iff.mp h
  unfold Nesting.feed
  rw [Option.isNone_iff_eq_none.mp hopens]
  exact if_pos hcloser

theorem feed_closer {g : OpenGroup} {gs : List OpenGroup} (hcons : n.inner = g :: gs)
    (h : g.kind.closedBy t.kind) : n.feed t = (n.closeTop t, .go) := by
  obtain ⟨hopens, hcloser⟩ := openedBy?_of_closedBy h
  unfold Nesting.feed
  simp [hopens, hcloser, hcons, List.findIdx?_cons, h]

/-- A token that nests well leaves everything clean, with the groups open that should be. -/
theorem Clean.feed (h : n.Clean ts) {after : List GroupKind} (hstep : nestStep n.kinds t = some after) :
    ∃ n', n.feed t = (n', .go) ∧ n'.Clean (ts ++ [t]) ∧ n'.kinds = after := by
  rcases nestStep_cases hstep with ⟨kind, hopens, rfl⟩ | ⟨hplain, rfl⟩ | ⟨kind, hcloses, hkinds⟩
  · refine ⟨_, feed_opener hopens, ⟨h.root, ?_, ?_⟩, rfl⟩
    · exact List.forall_mem_cons.mpr ⟨⟨hopens, by simp⟩, h.inner⟩
    · rw [← h.tokens]
      simp [OpenGroup.tokens, Item.tokensOf]
  · exact ⟨n.add (.token t), feed_plain hplain, h.add (.token hplain), n.kinds_add _⟩
  · obtain ⟨g, gs, hcons, rfl, rfl⟩ := List.map_eq_cons_iff.mp hkinds
    obtain ⟨hroot, hinner, htokens⟩ := h
    rw [hcons] at hinner htokens
    obtain ⟨hg, hgs⟩ := List.forall_mem_cons.mp hinner
    have hrest : Clean { n with inner := gs } _ := ⟨hroot, hgs, rfl⟩
    have hitem : (g.close t).Proper :=
      .group hg.1 hcloses fun i hi => hg.2 i (List.mem_reverse.mp hi)
    refine ⟨n.closeTop t, feed_closer hcons hcloses, ?_, ?_⟩
    · have hclosed := hrest.add hitem
      rw [Nesting.closeTop, hcons]
      rw [← htokens]
      simpa [OpenGroup.close, OpenGroup.tokens, Item.tokens] using hclosed
    · rw [Nesting.closeTop, hcons]
      exact kinds_add _ _

theorem root_add (n : Nesting) (i : Item) : n.root.items ⊆ (n.add i).root.items := by
  unfold Nesting.add
  split
  · exact List.subset_cons_self _ _
  · exact List.Subset.refl _

theorem root_closeTop (n : Nesting) (closed : Token) :
    n.root.items ⊆ (n.closeTop closed).root.items := by
  unfold Nesting.closeTop
  split
  · exact List.Subset.refl _
  · next gs _ => exact root_add { n with inner := gs } _

theorem root_closeSkipped (n : Nesting) (k : Nat) :
    n.root.items ⊆ (n.closeSkipped k).root.items := by
  induction k generalizing n with
  | zero => exact List.Subset.refl _
  | succ k ih => exact List.Subset.trans (root_closeTop n _) (ih _)

theorem root_inject (n : Nesting) (e : GroupError) : n.root.items ⊆ (n.inject e).root.items :=
  List.subset_cons_self _ _

theorem marked_inject (n : Nesting) (e : GroupError) : (n.inject e).Marked :=
  ⟨e, List.mem_cons_self⟩

theorem Marked.mono {n' : Nesting} (h : n.Marked) (hroot : n.root.items ⊆ n'.root.items) : n'.Marked :=
  let ⟨e, he⟩ := h
  ⟨e, hroot he⟩

/-- Whatever comes next, an error stays. -/
theorem root_feed (n : Nesting) (t : Token) : n.root.items ⊆ (n.feed t).1.root.items := by
  unfold Nesting.feed
  split
  · exact List.Subset.refl _
  · split
    · exact root_add n _
    · split
      · exact root_inject n _
      · exact root_closeTop n t
      · refine List.Subset.trans ?_ (root_closeTop _ t)
        exact List.Subset.trans (root_inject n _) (root_closeSkipped _ _)

/-- A token that does not fit leaves an error. -/
theorem marked_feed (hstep : nestStep n.kinds t = none) : (n.feed t).1.Marked := by
  unfold nestStep at hstep
  unfold Nesting.feed
  cases hopens : openedBy? t.kind with
  | some kind => rw [hopens] at hstep; cases hstep
  | none =>
    rw [hopens] at hstep
    dsimp only at hstep ⊢
    split at hstep
    · cases hstep
    · next hcloser =>
      rw [if_neg hcloser]
      split
      · exact marked_inject n _
      · next hfirst =>
        cases hinner : n.inner with
        | nil => rw [hinner] at hfirst; cases hfirst
        | cons g gs =>
          rw [hinner, List.findIdx?_cons] at hfirst
          rw [kinds, hinner, List.map_cons] at hstep
          cases hc : g.kind.closedBy t.kind with
          | true => simp [hc] at hstep
          | false => simp [hc] at hfirst
      · exact ((marked_inject n _).mono (root_closeSkipped _ _)).mono (root_closeTop _ t)

/-- A token of the body of a text: neither its end nor a directive. -/
def isInner (t : Token) : Bool :=
  match t.kind with
  | .eof | .includes _ => false
  | _ => true

/-- All that a token of a text can be. -/
theorem isInner_cases (t : Token) :
    t.kind = .eof ∨ (∃ name, t.kind = .includes name) ∨ isInner t := by
  unfold isInner
  split
  · next hkind => exact .inl hkind
  · next name hkind => exact .inr (.inl ⟨name, hkind⟩)
  · exact .inr (.inr rfl)

section

variable {including : String → Position → Nesting → Nesting × Flow}
  {atEnd : Token → Nesting → Nesting × Flow} {rest : List (Except LexError Token)}

theorem feedAll_inner (ht : isInner t) :
    feedAll including atEnd (.ok t :: rest) n =
      match n.feed t with
      | (n, .go) => feedAll including atEnd rest n
      | (n, .stop) => (n, .stop) := by
  rw [feedAll.eq_def]
  dsimp only
  cases hkind : t.kind with
  | eof | includes => simp [isInner, hkind] at ht
  | _ => rfl

/-- Tokens that nest well leave everything clean. -/
theorem Clean.feedAll (including : String → Position → Nesting → Nesting × Flow)
    (atEnd : Token → Nesting → Nesting × Flow) (rest : List (Except LexError Token))
    (h : n.Clean ts) {body : List Token} (hbody : ∀ t ∈ body, isInner t)
    {after : List GroupKind} (hnest : nestAll n.kinds body = some after) :
    ∃ n', feedAll including atEnd (body.map .ok ++ rest) n = feedAll including atEnd rest n' ∧
      n'.Clean (ts ++ body) ∧ n'.kinds = after := by
  induction body generalizing n ts with
  | nil =>
    cases hnest
    exact ⟨n, rfl, by simpa using h, rfl⟩
  | cons t body ih =>
    obtain ⟨ht, hbody⟩ := List.forall_mem_cons.mp hbody
    rw [nestAll_cons] at hnest
    obtain ⟨kinds, hstep, hnest⟩ := Option.bind_eq_some_iff.mp hnest
    obtain ⟨n₁, hfeed, hclean, rfl⟩ := h.feed hstep
    obtain ⟨n₂, hall, hclean, hkinds⟩ := ih hclean hbody hnest
    refine ⟨n₂, ?_, by simpa using hclean, hkinds⟩
    rw [List.map_cons, List.cons_append, feedAll_inner ht, hfeed]
    exact hall

variable {eof : Token} (hend : ∀ n : Nesting, n.Marked → (atEnd eof n).1.Marked)
  (heof : eof.kind = .eof)
include hend heof

/-- An error stays up to the end of the text. -/
theorem Marked.feedAll (h : n.Marked) {body : List Token} (hbody : ∀ t ∈ body, isInner t) :
    (feedAll including atEnd (body.map .ok ++ [.ok eof]) n).1.Marked := by
  induction body generalizing n with
  | nil =>
    rw [List.map_nil, List.nil_append, Nesting.feedAll, heof]
    exact hend n h
  | cons t body ih =>
    obtain ⟨ht, hbody⟩ := List.forall_mem_cons.mp hbody
    rw [List.map_cons, List.cons_append, feedAll_inner ht]
    have hfed := h.mono (n.root_feed t)
    split
    · next hfeed =>
      rw [hfeed] at hfed
      exact ih hfed hbody
    · next hfeed =>
      rw [hfeed] at hfed
      exact hfed

/-- Tokens that do not nest well leave an error. -/
theorem Clean.marked_feedAll (h : n.Clean ts) {body : List Token} (hbody : ∀ t ∈ body, isInner t)
    (hnest : nestAll n.kinds body = none) :
    (Nesting.feedAll including atEnd (body.map .ok ++ [.ok eof]) n).1.Marked := by
  induction body generalizing n ts with
  | nil => cases hnest
  | cons t body ih =>
    obtain ⟨ht, hbody⟩ := List.forall_mem_cons.mp hbody
    rw [List.map_cons, List.cons_append, feedAll_inner ht]
    cases hstep : nestStep n.kinds t with
    | none =>
      have hfed := marked_feed hstep
      split
      · next hfeed =>
        rw [hfeed] at hfed
        exact hfed.feedAll hend heof hbody
      · next hfeed =>
        rw [hfeed] at hfed
        exact hfed
    | some kinds =>
      rw [nestAll_cons, hstep, Option.bind_some] at hnest
      obtain ⟨n₁, hfeed, hclean, rfl⟩ := h.feed hstep
      rw [hfeed]
      exact ih hclean hbody hnest

end

theorem root_finish (n : Nesting) (eof : Token) : n.root.items ⊆ (n.finish eof).root.items := by
  unfold finish
  split
  · exact List.Subset.refl _
  · exact root_inject n _

/-- A group that is left open is an error. -/
theorem marked_finish (eof : Token) (h : n.kinds ≠ []) : (n.finish eof).Marked := by
  unfold finish
  split
  · next hnil => exact absurd (by rw [kinds, hnil]; rfl) h
  · exact marked_inject n _

theorem finish_of_closed (eof : Token) (h : n.kinds = []) :
    n.finish eof = { n with ended := some eof } := by
  have hnil : n.inner = [] := List.map_eq_nil_iff.mp h
  simp only [finish, hnil]

/-- A whole text that nests well is clean in the end, and any other one has left an error. -/
theorem Clean.feedAll_text (including : String → Position → Nesting → Nesting × Flow) (h : n.Clean [])
    (hkinds : n.kinds = []) {body : List Token} {eof : Token} (hbody : ∀ t ∈ body, isInner t)
    (heof : eof.kind = .eof) :
    let last := (Nesting.feedAll including (fun eof n => (n.finish eof, .stop))
      (body.map .ok ++ [.ok eof]) n).1
    (nestAll [] body = some [] → last.Clean body ∧ last.inner = [] ∧ last.ended = some eof) ∧
      (nestAll [] body ≠ some [] → last.Marked) := by
  have hfinish : ∀ n : Nesting, n.Marked → (n.finish eof).Marked :=
    fun n h => h.mono (n.root_finish eof)
  cases hnest : nestAll [] body with
  | none => exact ⟨by simp, fun _ => h.marked_feedAll hfinish heof hbody (hkinds ▸ hnest)⟩
  | some kinds =>
    obtain ⟨n', hall, hclean, rfl⟩ := h.feedAll including (fun eof n => (n.finish eof, .stop))
      [.ok eof] hbody (hkinds ▸ hnest)
    have hlast : Nesting.feedAll including (fun eof n => (n.finish eof, .stop)) [.ok eof] n' =
        (n'.finish eof, .stop) := by
      rw [Nesting.feedAll, heof]
    rw [hall, hlast]
    refine ⟨fun hclosed => ?_, fun hopen => marked_finish eof fun hnil => hopen (hnil ▸ rfl)⟩
    have hclosed : n'.kinds = [] := Option.some.inj hclosed
    rw [finish_of_closed eof hclosed]
    exact ⟨⟨hclean.root, hclean.inner, hclean.tokens⟩, List.map_eq_nil_iff.mp hclosed, rfl⟩

theorem foldl_add_root (items : List Item) {n : Nesting} (h : n.inner = []) :
    items.foldl add n = { n with root := { n.root with items := items.reverse ++ n.root.items } } := by
  induction items generalizing n with
  | nil => rfl
  | cons i items ih =>
    have hadd : n.add i = { n with root := n.root.add i } := by rw [add, h]
    rw [List.foldl_cons, hadd, ih (n := { n with root := n.root.add i }) h]
    simp [OpenGroup.add]

theorem foldl_add_inner (items : List Item) {n : Nesting} {g : OpenGroup} {gs : List OpenGroup}
    (h : n.inner = g :: gs) :
    items.foldl add n = { n with inner := { g with items := items.reverse ++ g.items } :: gs } := by
  induction items generalizing n g with
  | nil =>
    rw [List.reverse_nil, List.nil_append, ← h]
    rfl
  | cons i items ih =>
    have hadd : n.add i = { n with inner := g.add i :: gs } := by rw [add, h]
    rw [List.foldl_cons, hadd, ih rfl]
    simp [OpenGroup.add]

/-- A group that takes some items and is closed is itself an item of the group around it. -/
theorem closeTop_foldl_add (n : Nesting) (kind : GroupKind) (opened closed : Token) (items : List Item) :
    (items.foldl add { n with inner := ⟨kind, opened, []⟩ :: n.inner }).closeTop closed =
      n.add (.group kind opened closed items) := by
  rw [foldl_add_inner items rfl]
  simp [closeTop, OpenGroup.close]

section

variable (including : String → Position → Nesting → Nesting × Flow)
  (atEnd : Token → Nesting → Nesting × Flow)

/-- Feeding some tokens has the same effect as adding an item. -/
def Adds (ts : List Token) (items : List Item) : Prop :=
  ∀ (rest : List (Except LexError Token)) (n : Nesting),
    feedAll including atEnd (ts.map .ok ++ rest) n = feedAll including atEnd rest (items.foldl add n)

theorem adds_tokensOf {items : List Item} (h : ∀ i ∈ items, Adds including atEnd i.tokens [i]) :
    Adds including atEnd (Item.tokensOf items) items := by
  induction items with
  | nil => exact fun _ _ => rfl
  | cons i items ih =>
    obtain ⟨hi, hitems⟩ := List.forall_mem_cons.mp h
    intro rest n
    rw [Item.tokensOf, List.map_append, List.append_assoc, hi, ih hitems]
    rfl

/-- The tokens of a proper item become that item again. -/
theorem adds_tokens {i : Item} (h : i.Proper) (hinner : ∀ t ∈ i.tokens, isInner t) :
    Adds including atEnd i.tokens [i] := by
  intro rest n
  induction h generalizing rest n with
  | @token t h =>
    have ht : isInner t := hinner t (by simp [Item.tokens])
    rw [Item.tokens, List.map_singleton, List.singleton_append, feedAll_inner ht, feed_plain h]
    rfl
  | @group kind opened closed items hopens hcloses _ ih =>
    simp only [Item.tokens, List.cons_append, List.mem_cons, List.mem_append, List.not_mem_nil,
      or_false] at hinner
    have hopened := hinner opened (.inl rfl)
    have hclosed := hinner closed (.inr (.inr rfl))
    have hitems : Adds including atEnd (Item.tokensOf items) items := by
      refine adds_tokensOf including atEnd fun i hi => ?_
      exact ih i hi fun t ht => hinner t (.inr (.inl (Item.tokens_subset_tokensOf hi ht)))
    have hcons : (items.foldl add { n with inner := ⟨kind, opened, []⟩ :: n.inner }).inner =
        { kind := kind, opened := opened, items := items.reverse } :: n.inner := by
      rw [foldl_add_inner items rfl]
      simp
    rw [Item.tokens, List.map_append, List.map_cons, List.cons_append, List.cons_append,
      feedAll_inner hopened, feed_opener hopens]
    dsimp only
    rw [List.append_assoc, hitems, List.map_singleton, List.singleton_append, feedAll_inner hclosed,
      feed_closer hcons hcloses]
    dsimp only
    rw [closeTop_foldl_add]
    rfl

end
end Nesting

namespace Group

/-- An error in the root shows. -/
theorem errors_ne_nil {n : Nesting} (h : n.Marked) (opened closed : Token) :
    (⟨.root, opened, closed, n.unwind⟩ : Group).errors ≠ [] := by
  obtain ⟨e, he⟩ := h
  have hmem : .error e ∈ n.unwind :=
    List.mem_reverse.mpr (n.root_closeSkipped n.inner.length he)
  refine List.ne_nil_of_mem (a := e) ?_
  exact List.mem_filterMap.mpr ⟨_, hmem, rfl⟩

/-- Proper items show no error. -/
theorem errors_eq_nil {g : Group} (h : ∀ i ∈ g.items, i.Proper) : g.errors = [] := by
  refine List.filterMap_eq_nil_iff.mpr fun i hi => ?_
  cases h i hi <;> rfl

/-- Proper items are what the groups of their tokens are. -/
theorem assemble_tokensOf (sources : Sources) {unit source : String} {items : List Item} {eof : Token}
    (hscan : Token.scan unit source = (Item.tokensOf items ++ [eof]).map .ok) (heof : eof.kind = .eof)
    (hinner : ∀ t ∈ Item.tokensOf items, Nesting.isInner t) (hitems : ∀ i ∈ items, i.Proper) :
    assemble sources unit source = ⟨.root, ⟨.eof, .start unit⟩, eof, items⟩ := by
  have hadds := Nesting.adds_tokensOf (Nesting.includeFrom sources maxIncludeDepth)
    (fun eof n => (n.finish eof, .stop)) fun i hi =>
      Nesting.adds_tokens _ _ (hitems i hi) fun t ht => hinner t (Item.tokens_subset_tokensOf hi ht)
  have hlast : ∀ n : Nesting, Nesting.feedAll (Nesting.includeFrom sources maxIncludeDepth)
      (fun eof n => (n.finish eof, .stop)) [.ok eof] n = (n.finish eof, .stop) := by
    intro n
    rw [Nesting.feedAll, heof]
  have hroot := Nesting.foldl_add_root items (n := { root := ⟨.root, ⟨.eof, .start unit⟩, []⟩ }) rfl
  unfold assemble
  rw [hscan, List.map_append, List.map_singleton]
  dsimp only
  rw [hadds, hlast, hroot, Nesting.finish_of_closed eof rfl]
  simp [Nesting.unwind, Nesting.closeSkipped]

/-- The groups of a text show no error if and only if its tokens are well nested. Then they are the
nesting of the tokens: the root ends with the last token, it holds the other ones in order, and each
group at any level stands between a pair that matches. -/
theorem assemble_wellNested (sources : Sources) {unit source : String} {ts : List Token}
    (hlex : Token.scanAll unit source = .ok ts) (hincludes : ∀ t ∈ ts, ∀ name, t.kind ≠ .includes name) :
    ((assemble sources unit source).errors = [] ↔ WellNested ts) ∧
    ((assemble sources unit source).errors = [] →
      Item.tokensOf (assemble sources unit source).items ++ [(assemble sources unit source).closed] =
        ts ∧
      ∀ kind opened closed items,
        Item.Within (.group kind opened closed items) (assemble sources unit source).items →
        MatchingPair ts kind opened closed) := by
  obtain ⟨hscan, body, eof, rfl, heof, hbody⟩ := Token.scanAll_eq_ok hlex
  have hinner : ∀ t ∈ body, Nesting.isInner t := by
    intro t ht
    unfold Nesting.isInner
    split
    · next h => exact absurd h (hbody t ht)
    · next h => exact absurd h (hincludes t (List.mem_append_left _ ht) _)
    · rfl
  have hplain : isPlain eof.kind := by rw [heof]; rfl
  have hnested : WellNested (body ++ [eof]) ↔ nestAll [] body = some [] := by
    rw [wellNested_iff, nestAll_append]
    have hend : ∀ kinds, nestAll kinds [eof] = some kinds :=
      fun kinds => (WellNested.plain hplain .nil).nestAll kinds
    simp [hend]
  have hbegin : Nesting.Clean { root := ⟨.root, ⟨.eof, .start unit⟩, []⟩ } [] :=
    ⟨by simp, by simp, rfl⟩
  obtain ⟨hgood, hbad⟩ := hbegin.feedAll_text
    (Nesting.includeFrom sources maxIncludeDepth) rfl hinner heof
  unfold assemble
  rw [hscan, List.map_append, List.map_singleton, hnested]
  dsimp only
  generalize (Nesting.feedAll _ _ (body.map .ok ++ [.ok eof]) _).1 = n at hgood hbad ⊢
  by_cases hnest : nestAll [] body = some []
  · obtain ⟨hclean, hclosed, hended⟩ := hgood hnest
    have hunwind : n.unwind = n.root.items.reverse := by
      rw [Nesting.unwind, hclosed]
      rfl
    have hproper : ∀ i ∈ n.unwind, i.Proper := by
      rw [hunwind]
      exact fun i hi => hclean.root i (List.mem_reverse.mp hi)
    have htokens : Item.tokensOf n.unwind = body := by
      have htokens := hclean.tokens
      rw [hclosed] at htokens
      simpa [hunwind] using htokens
    refine ⟨⟨fun _ => hnest, fun _ => errors_eq_nil hproper⟩, fun _ => ⟨?_, ?_⟩⟩
    · rw [htokens, hended]
      rfl
    · intro kind opened closed items hwithin
      obtain ⟨hopens, hcloses, before, inside, after, hpair, hinside⟩ :=
        hwithin.matchingPair hproper
      refine ⟨hopens, hcloses, before, inside, after ++ [eof], ?_, hinside⟩
      rw [← htokens, hpair]
      simp
  · have herrors := errors_ne_nil (hbad hnest)
    exact ⟨⟨fun h => absurd h (herrors _ _), fun h => absurd h hnest⟩,
      fun h => absurd h (herrors _ _)⟩

/-- A block around a bracketed expression. -/
theorem assemble_wellNested_block : ∃ ts,
    Token.scanAll "test" "begin a[(1)] end." = .ok ts ∧
    (∀ t ∈ ts, ∀ name, t.kind ≠ .includes name) ∧
    (assemble ⟨{}, []⟩ "test" "begin a[(1)] end.").errors = [] ∧ WellNested ts := by
  have hlex : (match Token.scanAll "test" "begin a[(1)] end." with
      | .ok ts => ts.all fun t => match t.kind with
        | .includes _ => false
        | _ => true
      | .error _ => false) = true := by decide +kernel
  have herrors : (assemble ⟨{}, []⟩ "test" "begin a[(1)] end.").errors = [] := by decide +kernel
  cases hts : Token.scanAll "test" "begin a[(1)] end." with
  | error e => rw [hts] at hlex; cases hlex
  | ok ts =>
    rw [hts] at hlex
    have hincludes : ∀ t ∈ ts, ∀ name, t.kind ≠ .includes name := by
      intro t ht name hname
      have hkind := List.all_eq_true.mp hlex t ht
      rw [hname] at hkind
      cases hkind
    exact ⟨ts, rfl, hincludes, herrors,
      (assemble_wellNested ⟨{}, []⟩ hts hincludes).1.mp herrors⟩

end Group

end Pascal
