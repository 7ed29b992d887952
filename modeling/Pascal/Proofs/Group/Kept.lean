import Pascal.Proofs.Group.Assemble

/-!
# Grouping keeps all tokens

Whatever is wrong with the nesting, the groups of a text hold each token that was taken once, in the order
of the text. A group that is skipped or left open ends with a copy of its opener, which is no token of the
text.
-/

namespace Pascal

open GroupKind

/-- The groups that stay open behind a token, the innermost first. A closer closes the innermost group that
it fits and all groups inside of that one; it is not accepted if it fits none. -/
def recoverStep (open_ : List GroupKind) (t : Token) : Option (List GroupKind) :=
  match openedBy? t.kind with
  | some kind => some (kind :: open_)
  | none =>
    if !isCloser t.kind then some open_
    else match open_.dropWhile (fun kind => !kind.closedBy t.kind) with
      | [] => none
      | _ :: outer => some outer

/-- The tokens of a scan before its first fault, the first closer that no open group accepts, or its end. -/
def acceptedTokens (open_ : List GroupKind) : List (Except LexError Token) → List Token
  | [] => []
  | .error _ :: _ => []
  | .ok t :: rest =>
    if t.kind.isEof then []
    else match recoverStep open_ t with
      | none => []
      | some open_ => t :: acceptedTokens open_ rest

section

variable {open_ : List GroupKind} {t : Token} {kind : GroupKind}

theorem recoverStep_opener (h : openedBy? t.kind = some kind) :
    recoverStep open_ t = some (kind :: open_) := by
  unfold recoverStep
  rw [h]

theorem recoverStep_plain (h : isPlain t.kind) : recoverStep open_ t = some open_ := by
  obtain ⟨hopens, hcloses⟩ := Bool.and_eq_true_iff.mp h
  unfold recoverStep
  rw [Option.isNone_iff_eq_none.mp hopens]
  exact if_pos hcloses

theorem recoverStep_closer {skipped outer : List GroupKind}
    (hskipped : ∀ g ∈ skipped, g.closedBy t.kind = false) (h : kind.closedBy t.kind) :
    recoverStep (skipped ++ kind :: outer) t = some outer := by
  obtain ⟨hopens, hcloser⟩ := openedBy?_of_closedBy h
  have hdrop : (skipped ++ kind :: outer).dropWhile (fun g => !g.closedBy t.kind) = kind :: outer := by
    rw [List.dropWhile_append_of_pos fun g hg => by rw [hskipped g hg]; rfl]
    simp [h]
  unfold recoverStep
  rw [hopens]
  simp only [hcloser, hdrop, Bool.not_true, Bool.false_eq_true, if_false]

theorem recoverStep_stray (hopens : openedBy? t.kind = none) (hcloser : isCloser t.kind)
    (h : ∀ g ∈ open_, g.closedBy t.kind = false) : recoverStep open_ t = none := by
  have hdrop : open_.dropWhile (fun g => !g.closedBy t.kind) = [] :=
    List.dropWhile_eq_nil_iff.mpr fun g hg => by rw [h g hg]; rfl
  unfold recoverStep
  rw [hopens]
  simp only [hcloser, hdrop, Bool.not_true, Bool.false_eq_true, if_false]

end

namespace Item

mutual

/-- The tokens that an item was made from, in order. A group without a closer of its own ends with none. -/
def kept : Item → List Token
  | token t => [t]
  | group kind opened closed items =>
    opened :: keptOf items ++ if kind.closedBy closed.kind then [closed] else []
  | error _ => []

def keptOf : List Item → List Token
  | [] => []
  | i :: is => kept i ++ keptOf is

end

@[simp] theorem keptOf_append (is js : List Item) : keptOf (is ++ js) = keptOf is ++ keptOf js := by
  induction is with
  | nil => rfl
  | cons i is ih => rw [List.cons_append, keptOf, keptOf, ih, List.append_assoc]

/-- All groups in an item begin with what opens them, and end with what closes them or with a copy of what
opens them. -/
inductive Formed : Item → Prop where
  | token {t : Token} : Formed (.token t)
  | error {e : GroupError} : Formed (.error e)
  | group {kind : GroupKind} {opened closed : Token} {items : List Item}
      (hopens : openedBy? opened.kind = some kind)
      (hcloses : kind.closedBy closed.kind ∨ closed = opened) (hitems : ∀ i ∈ items, Formed i) :
      Formed (.group kind opened closed items)

theorem Within.formed {i : Item} {items : List Item} (h : Within i items)
    (hitems : ∀ i ∈ items, Formed i) : i.Formed := by
  induction h with
  | here h => exact hitems _ h
  | inside h _ ih =>
    cases hitems _ h with
    | group _ _ hinner => exact ih hinner

/-- What opens a group does not close it. -/
theorem closedBy_opener {kind : GroupKind} {opened : Token} (h : openedBy? opened.kind = some kind) :
    kind.closedBy opened.kind = false := by
  cases hc : kind.closedBy opened.kind with
  | false => rfl
  | true => simp [(openedBy?_of_closedBy hc).1] at h

end Item

namespace OpenGroup

/-- The tokens that an open group was made from so far. -/
def kept (g : OpenGroup) : List Token := g.opened :: Item.keptOf g.items.reverse

end OpenGroup

namespace Nesting

variable {n : Nesting} {t : Token}

/-- The tokens that were taken so far. -/
def kept (n : Nesting) : List Token :=
  Item.keptOf n.root.items.reverse ++ n.inner.reverse.flatMap OpenGroup.kept

/-- All groups, open or not, begin and end as they should. -/
structure Formed (n : Nesting) : Prop where
  root : ∀ i ∈ n.root.items, i.Formed
  inner : ∀ g ∈ n.inner, openedBy? g.opened.kind = some g.kind ∧ ∀ i ∈ g.items, i.Formed

/-- All that a token can do. -/
theorem feed_cases (n : Nesting) (t : Token) :
    (∃ kind, openedBy? t.kind = some kind ∧
      n.feed t = ({ n with inner := ⟨kind, t, []⟩ :: n.inner }, .go)) ∨
    (isPlain t.kind ∧ n.feed t = (n.add (.token t), .go)) ∨
    (openedBy? t.kind = none ∧ isCloser t.kind ∧ (∀ g ∈ n.inner, g.kind.closedBy t.kind = false) ∧
      n.feed t = (n.inject (.strayCloser t.describe t.pos), .stop)) ∨
    (∃ g outer, n.inner = g :: outer ∧ g.kind.closedBy t.kind ∧ n.feed t = (n.closeTop t, .go)) ∨
    ∃ skipped g outer, n.inner = skipped ++ g :: outer ∧
      (∀ g ∈ skipped, g.kind.closedBy t.kind = false) ∧ g.kind.closedBy t.kind ∧
      n.feed t = (((n.inject (.mismatchedCloser n.top.kind n.top.opened.pos t.describe t.pos)).closeSkipped
        skipped.length).closeTop t, .go) := by
  cases hopens : openedBy? t.kind with
  | some kind => exact .inl ⟨kind, rfl, feed_opener hopens⟩
  | none =>
    cases hcloser : isCloser t.kind with
    | false =>
      have hplain : isPlain t.kind := by simp [isPlain, hopens, hcloser]
      exact .inr (.inl ⟨hplain, feed_plain hplain⟩)
    | true =>
      refine .inr (.inr ?_)
      unfold Nesting.feed
      simp only [hopens, hcloser, Bool.not_true, Bool.false_eq_true, if_false]
      split
      · next hfirst => exact .inl ⟨trivial, trivial, List.findIdx?_eq_none_iff.mp hfirst, rfl⟩
      · next hfirst =>
        obtain ⟨hlt, hcloses, -⟩ := List.findIdx?_eq_some_iff_getElem.mp hfirst
        obtain ⟨g, outer, hinner⟩ := List.exists_cons_of_length_pos hlt
        simp only [hinner, List.getElem_cons_zero] at hcloses
        exact .inr (.inl ⟨g, outer, hinner, hcloses, rfl⟩)
      · next i _ hfirst =>
        obtain ⟨hlt, hcloses, hbefore⟩ := List.findIdx?_eq_some_iff_getElem.mp hfirst
        refine .inr (.inr ⟨n.inner.take i, n.inner[i], n.inner.drop (i + 1), ?_, ?_, hcloses, ?_⟩)
        · rw [List.getElem_cons_drop, List.take_append_drop]
        · intro g hg
          obtain ⟨j, hj, rfl⟩ := List.mem_take_iff_getElem.mp hg
          exact Bool.eq_false_iff.mpr (hbefore j (by omega))
        · rw [List.length_take, Nat.min_eq_left (Nat.le_of_lt hlt)]

@[simp] theorem kinds_inject (e : GroupError) : (n.inject e).kinds = n.kinds := by
  simp only [kinds, inject, List.map_map]
  rfl

@[simp] theorem kinds_closeTop (closed : Token) : (n.closeTop closed).kinds = n.kinds.tail := by
  unfold closeTop
  split
  · next hnil => simp [kinds, hnil]
  · next g outer hcons =>
    rw [kinds_add, kinds, kinds, hcons]
    rfl

@[simp] theorem kinds_closeSkipped (k : Nat) : (n.closeSkipped k).kinds = n.kinds.drop k := by
  induction k generalizing n with
  | zero => rfl
  | succ k ih => rw [closeSkipped, ih, kinds_closeTop, List.drop_tail]

theorem kept_add (i : Item) : (n.add i).kept = n.kept ++ i.kept := by
  unfold add
  split
  · next hnil => simp [kept, hnil, OpenGroup.add, Item.keptOf]
  · next g outer hcons => simp [kept, hcons, OpenGroup.kept, OpenGroup.add, Item.keptOf]

/-- Errors are no tokens. -/
@[simp] theorem kept_inject (e : GroupError) : (n.inject e).kept = n.kept := by
  have herror : Item.keptOf [.error e] = [] := rfl
  have hgroup : ∀ g : OpenGroup, (g.add (.error e)).kept = g.kept := by
    intro g
    simp [OpenGroup.kept, OpenGroup.add, herror]
  have hinner : ((n.inner.map (·.add (.error e))).reverse.flatMap OpenGroup.kept) =
      n.inner.reverse.flatMap OpenGroup.kept := by
    simp only [← List.map_reverse, List.flatMap_map, hgroup]
  rw [kept, inject, hinner]
  simp [kept, OpenGroup.add, herror]

theorem kept_closeTop {g : OpenGroup} {outer : List OpenGroup} (hcons : n.inner = g :: outer)
    (closed : Token) : (n.closeTop closed).kept =
      n.kept ++ if g.kind.closedBy closed.kind then [closed] else [] := by
  unfold closeTop
  rw [hcons]
  dsimp only
  rw [kept_add]
  simp [kept, hcons, OpenGroup.kept, OpenGroup.close, Item.kept]

namespace Formed

theorem add (h : n.Formed) {i : Item} (hi : i.Formed) : (n.add i).Formed := by
  unfold Nesting.add
  split
  · exact ⟨List.forall_mem_cons.mpr ⟨hi, h.root⟩, h.inner⟩
  · next g outer hcons =>
    obtain ⟨hg, houter⟩ := List.forall_mem_cons.mp (hcons ▸ h.inner)
    have hadded : ∀ j ∈ (g.add i).items, j.Formed := List.forall_mem_cons.mpr ⟨hi, hg.2⟩
    exact ⟨h.root, List.forall_mem_cons.mpr ⟨⟨hg.1, hadded⟩, houter⟩⟩

theorem inject (h : n.Formed) (e : GroupError) : (n.inject e).Formed := by
  constructor
  · exact List.forall_mem_cons.mpr ⟨.error, h.root⟩
  · intro g hg
    obtain ⟨g, hmem, rfl⟩ := List.mem_map.mp hg
    obtain ⟨hopens, hitems⟩ := h.inner g hmem
    exact ⟨hopens, List.forall_mem_cons.mpr ⟨.error, hitems⟩⟩

theorem closeTop (h : n.Formed) {closed : Token}
    (hcloses : ∀ g outer, n.inner = g :: outer → g.kind.closedBy closed.kind ∨ closed = g.opened) :
    (n.closeTop closed).Formed := by
  unfold Nesting.closeTop
  split
  · exact h
  · next g outer hcons =>
    obtain ⟨hg, houter⟩ := List.forall_mem_cons.mp (hcons ▸ h.inner)
    have hrest : Formed { n with inner := outer } := ⟨h.root, houter⟩
    refine hrest.add (.group hg.1 (hcloses g outer hcons) fun i hi => ?_)
    exact hg.2 i (List.mem_reverse.mp hi)

/-- A group that is closed with a copy of its opener takes no token. -/
theorem closeSkipped (h : n.Formed) (k : Nat) :
    (n.closeSkipped k).Formed ∧ (n.closeSkipped k).kept = n.kept := by
  induction k generalizing n with
  | zero => exact ⟨h, rfl⟩
  | succ k ih =>
    have hclosed : (n.closeTop n.top.opened).Formed := by
      refine h.closeTop fun g outer hcons => .inr ?_
      rw [top, hcons]
      rfl
    have hkept : (n.closeTop n.top.opened).kept = n.kept := by
      cases hinner : n.inner with
      | nil =>
        unfold Nesting.closeTop
        rw [hinner]
      | cons g outer =>
        have htop : n.top = g := by
          rw [top, hinner]
          rfl
        have hopens := (h.inner g (hinner ▸ List.mem_cons_self)).1
        rw [htop, kept_closeTop hinner, Item.closedBy_opener hopens]
        simp
    rw [Nesting.closeSkipped, ← hkept]
    exact ih hclosed

/-- A token that is accepted is kept; a closer that is not accepted stops everything, and is not kept. -/
theorem feed (h : n.Formed) (t : Token) :
    (∃ n', n.feed t = (n', .go) ∧ n'.Formed ∧ n'.kept = n.kept ++ [t] ∧
      recoverStep n.kinds t = some n'.kinds) ∨
    ∃ n', n.feed t = (n', .stop) ∧ n'.Formed ∧ n'.kept = n.kept ∧ recoverStep n.kinds t = none := by
  rcases n.feed_cases t with ⟨kind, hopens, hfeed⟩ | ⟨hplain, hfeed⟩ | ⟨hopens, hcloser, hnone, hfeed⟩ |
    ⟨g, outer, hinner, hcloses, hfeed⟩ | ⟨skipped, g, outer, hinner, hskipped, hcloses, hfeed⟩
  · refine .inl ⟨_, hfeed, ⟨h.root, ?_⟩, ?_, recoverStep_opener hopens⟩
    · exact List.forall_mem_cons.mpr ⟨⟨hopens, by simp⟩, h.inner⟩
    · simp [kept, OpenGroup.kept, Item.keptOf]
  · refine .inl ⟨_, hfeed, h.add .token, kept_add _, ?_⟩
    rw [kinds_add]
    exact recoverStep_plain hplain
  · refine .inr ⟨_, hfeed, h.inject _, kept_inject _, recoverStep_stray hopens hcloser fun k hk => ?_⟩
    obtain ⟨g, hg, rfl⟩ := List.mem_map.mp hk
    exact hnone g hg
  · have hkinds : n.kinds = [] ++ g.kind :: outer.map (·.kind) := by
      rw [kinds, hinner]
      rfl
    refine .inl ⟨_, hfeed, h.closeTop fun g' outer' hcons => ?_, ?_, ?_⟩
    · cases hinner.symm.trans hcons
      exact .inl hcloses
    · rw [kept_closeTop hinner, if_pos hcloses]
    · rw [kinds_closeTop, hkinds]
      exact recoverStep_closer (by simp) hcloses
  · generalize GroupError.mismatchedCloser n.top.kind n.top.opened.pos t.describe t.pos = e at hfeed
    have hkinds : n.kinds = skipped.map (·.kind) ++ g.kind :: outer.map (·.kind) := by
      rw [kinds, hinner, List.map_append, List.map_cons]
    have hleft : ((n.inject e).closeSkipped skipped.length).kinds = g.kind :: outer.map (·.kind) := by
      rw [kinds_closeSkipped, kinds_inject, hkinds, ← List.length_map (·.kind), List.drop_left]
    obtain ⟨hclosed, hkept⟩ := (h.inject e).closeSkipped skipped.length
    obtain ⟨g', outer', hcons, hkind, -⟩ := List.map_eq_cons_iff.mp hleft
    have hfits : g'.kind.closedBy t.kind := hkind ▸ hcloses
    refine .inl ⟨_, hfeed, hclosed.closeTop fun g'' outer'' hcons' => ?_, ?_, ?_⟩
    · cases hcons.symm.trans hcons'
      exact .inl hfits
    · rw [kept_closeTop hcons, if_pos hfits, hkept, kept_inject]
    · rw [kinds_closeTop, hleft, hkinds]
      exact recoverStep_closer (by simpa using hskipped) hcloses

theorem finish (h : n.Formed) (eof : Token) : (n.finish eof).Formed ∧ (n.finish eof).kept = n.kept := by
  unfold Nesting.finish
  split
  · exact ⟨⟨h.root, h.inner⟩, rfl⟩
  · next g _ _ =>
    have hmarked := h.inject (.unclosed g.kind g.opened.pos eof.pos)
    exact ⟨⟨hmarked.root, hmarked.inner⟩, kept_inject _⟩

/-- Once all groups are closed, the root holds the tokens that were taken. -/
theorem unwind (h : n.Formed) : (∀ i ∈ n.unwind, i.Formed) ∧ Item.keptOf n.unwind = n.kept := by
  obtain ⟨hclosed, hsame⟩ := h.closeSkipped n.inner.length
  have hnone : (n.closeSkipped n.inner.length).inner = [] := by
    have hkinds : (n.closeSkipped n.inner.length).kinds = [] := by
      rw [kinds_closeSkipped, kinds, ← List.length_map (·.kind), List.drop_length]
    exact List.map_eq_nil_iff.mp hkinds
  refine ⟨fun i hi => hclosed.root i (List.mem_reverse.mp hi), ?_⟩
  rw [← hsame, kept, hnone]
  simp [Nesting.unwind]

/-- Of a text without directives just the tokens that are accepted are kept. -/
theorem feedAll (including : String → Position → Nesting → Nesting × Flow) (h : n.Formed)
    {rs : List (Except LexError Token)} (hincludes : ∀ t, .ok t ∈ rs → ∀ name, t.kind ≠ .includes name) :
    let last := (feedAll including (fun eof n => (n.finish eof, .stop)) rs n).1
    last.Formed ∧ last.kept = n.kept ++ acceptedTokens n.kinds rs := by
  induction rs generalizing n with
  | nil => exact ⟨h, (List.append_nil _).symm⟩
  | cons r rest ih =>
    cases r with
    | error e =>
      rw [Nesting.feedAll, acceptedTokens, List.append_nil]
      exact ⟨h.inject _, kept_inject _⟩
    | ok t =>
      have hrest : ∀ t, .ok t ∈ rest → ∀ name, t.kind ≠ .includes name :=
        fun t ht => hincludes t (List.mem_cons_of_mem _ ht)
      rcases isInner_cases t with heof | ⟨name, hname⟩ | hinner
      · rw [Nesting.feedAll, acceptedTokens, heof]
        simpa [Token.Kind.isEof] using h.finish t
      · exact absurd hname (hincludes t List.mem_cons_self name)
      · have hend : t.kind.isEof = false := by
          unfold Token.Kind.isEof
          split
          · next hkind => simp [isInner, hkind] at hinner
          · rfl
        rw [feedAll_inner hinner, acceptedTokens, hend]
        rcases h.feed t with ⟨n', hfeed, hformed, hkept, hstep⟩ | ⟨n', hfeed, hformed, hkept, hstep⟩
        · rw [hfeed, hstep]
          simpa [hkept] using ih hformed hrest
        · rw [hfeed, hstep]
          simpa using ⟨hformed, hkept⟩

end Formed

end Nesting

namespace Group

/-- No token is lost, doubled or moved. Read from left to right, the groups of a text without directives
give the tokens of the text up to the first fault, the first closer that no open group accepts, or the
end. The last token of a group is left out if it is no closer, and then it is a copy of the first one. -/
theorem assemble_kept (sources : Sources) {unit source : String}
    (hincludes : ∀ t, .ok t ∈ Token.scan unit source → ∀ name, t.kind ≠ .includes name) :
    Item.keptOf (assemble sources unit source).items = acceptedTokens [] (Token.scan unit source) ∧
    ∀ kind opened closed items,
      Item.Within (.group kind opened closed items) (assemble sources unit source).items →
      (closed = opened ↔ ¬kind.closedBy closed.kind) := by
  have hbegin : Nesting.Formed { root := ⟨.root, ⟨.eof, .start unit⟩, []⟩ } := ⟨by simp, by simp⟩
  obtain ⟨hformed, hkept⟩ := hbegin.feedAll (Nesting.includeFrom sources maxIncludeDepth) hincludes
  unfold assemble
  dsimp only at hformed hkept ⊢
  generalize (Nesting.feedAll _ _ (Token.scan unit source) _).1 = n at hformed hkept ⊢
  obtain ⟨hunwind, hsame⟩ := hformed.unwind
  refine ⟨?_, fun kind opened closed items hwithin => ?_⟩
  · rw [hsame, hkept]
    simp [Nesting.kept, Nesting.kinds, Item.keptOf]
  · cases hwithin.formed hunwind with
    | group hopens hcloses _ =>
      constructor
      · rintro rfl
        simp [Item.closedBy_opener hopens]
      · exact fun hnot => hcloses.resolve_left hnot

/-- A closer that skips a parenthesis, and one that nothing accepts. -/
theorem assemble_kept_recovered :
    (∀ t, .ok t ∈ Token.scan "test" "begin (x end y) z" → ∀ name, t.kind ≠ .includes name) ∧
    Item.keptOf (assemble ⟨{}, []⟩ "test" "begin (x end y) z").items =
      acceptedTokens [] (Token.scan "test" "begin (x end y) z") ∧
    (acceptedTokens [] (Token.scan "test" "begin (x end y) z")).map Token.describe =
      ["'begin'", "'('", "identifier 'x'", "'end'", "identifier 'y'"] := by
  have hscan : ((Token.scan "test" "begin (x end y) z").all fun
      | .ok ⟨.includes _, _⟩ => false
      | _ => true) = true := by decide +kernel
  have hincludes : ∀ t, .ok t ∈ Token.scan "test" "begin (x end y) z" →
      ∀ name, t.kind ≠ .includes name := by
    rintro ⟨kind, pos⟩ ht name rfl
    have hnone := List.all_eq_true.mp hscan _ ht
    cases hnone
  exact ⟨hincludes, (assemble_kept ⟨{}, []⟩ hincludes).1, by decide +kernel⟩

end Group

end Pascal
