import Pascal.Proofs.Group.Assemble

/-!
# The tokens in groups

Whatever is wrong with the nesting, the groups of a text hold no tokens but those of the text and of the
texts that it includes.
-/

namespace Pascal

namespace Item

/-- A property of all tokens in an item. -/
def Holds (P : Token → Prop) (i : Item) : Prop := ∀ t ∈ i.tokens, P t

theorem mem_tokensOf {t : Token} {items : List Item} :
    t ∈ tokensOf items ↔ ∃ i ∈ items, t ∈ i.tokens := by
  induction items with
  | nil => simp [tokensOf]
  | cons i items ih => simp [tokensOf, ih]

variable {P : Token → Prop}

theorem holds_token {t : Token} (h : P t) : (token t).Holds P := by
  intro u hu
  cases List.mem_singleton.mp hu
  exact h

theorem holds_error (e : GroupError) : (error e).Holds P := by
  intro u hu
  cases hu

theorem holds_group {kind : GroupKind} {opened closed : Token} {items : List Item}
    (ho : P opened) (hc : P closed) (hi : ∀ i ∈ items, i.Holds P) :
    (group kind opened closed items).Holds P := by
  intro u hu
  have hcases : u = opened ∨ u ∈ tokensOf items ∨ u = closed := by
    simpa [tokens] using hu
  rcases hcases with rfl | hu | rfl
  · exact ho
  · obtain ⟨i, hmem, hu⟩ := mem_tokensOf.mp hu
    exact hi i hmem u hu
  · exact hc

end Item

/-- A property of what opens a group and of all tokens in it so far. -/
def OpenGroup.Holds (P : Token → Prop) (g : OpenGroup) : Prop :=
  P g.opened ∧ ∀ i ∈ g.items, i.Holds P

namespace OpenGroup

variable {P : Token → Prop} {g : OpenGroup}

theorem Holds.add (h : g.Holds P) {i : Item} (hi : i.Holds P) : (g.add i).Holds P :=
  ⟨h.1, List.forall_mem_cons.mpr ⟨hi, h.2⟩⟩

theorem Holds.close (h : g.Holds P) {closed : Token} (hc : P closed) : (g.close closed).Holds P :=
  Item.holds_group h.1 hc fun i hi => h.2 i (List.mem_reverse.mp hi)

end OpenGroup

namespace Nesting

/-- A property of all tokens so far. -/
structure Holds (P : Token → Prop) (n : Nesting) : Prop where
  root : n.root.Holds P
  inner : ∀ g ∈ n.inner, g.Holds P

variable {P : Token → Prop} {n : Nesting} {t : Token}

namespace Holds

theorem add (h : n.Holds P) {i : Item} (hi : i.Holds P) : (n.add i).Holds P := by
  unfold Nesting.add
  split
  · next hnil =>
    constructor
    · exact h.root.add hi
    · exact h.inner
  · next g gs hcons =>
    have hinner := h.inner
    rw [hcons] at hinner
    obtain ⟨hg, hgs⟩ := List.forall_mem_cons.mp hinner
    constructor
    · exact h.root
    · exact List.forall_mem_cons.mpr ⟨hg.add hi, hgs⟩

theorem inject (h : n.Holds P) (e : GroupError) : (n.inject e).Holds P := by
  constructor
  · exact h.root.add (Item.holds_error e)
  · intro g hg
    obtain ⟨g, hmem, rfl⟩ := List.mem_map.mp hg
    exact (h.inner g hmem).add (Item.holds_error e)

theorem top (h : n.Holds P) : n.top.Holds P := by
  unfold Nesting.top
  cases hinner : n.inner with
  | nil => exact h.root
  | cons g gs => exact h.inner g (hinner ▸ List.mem_cons_self)

theorem closeTop (h : n.Holds P) {closed : Token} (hc : P closed) : (n.closeTop closed).Holds P := by
  unfold Nesting.closeTop
  split
  · exact h
  · next g gs hcons =>
    have hinner := h.inner
    rw [hcons] at hinner
    obtain ⟨hg, hgs⟩ := List.forall_mem_cons.mp hinner
    have hrest : Holds P { n with inner := gs } := ⟨h.root, hgs⟩
    exact hrest.add (hg.close hc)

theorem closeSkipped (h : n.Holds P) (k : Nat) : (n.closeSkipped k).Holds P := by
  induction k generalizing n with
  | zero => exact h
  | succ k ih => exact ih (h.closeTop h.top.1)

theorem feed (h : n.Holds P) (ht : P t) : (n.feed t).1.Holds P := by
  unfold Nesting.feed
  split
  · next kind hopens =>
    have hnew : OpenGroup.Holds P ⟨kind, t, []⟩ := ⟨ht, by simp⟩
    exact ⟨h.root, List.forall_mem_cons.mpr ⟨hnew, h.inner⟩⟩
  · split
    · exact h.add (Item.holds_token ht)
    · split
      · exact h.inject _
      · exact h.closeTop ht
      · exact ((h.inject _).closeSkipped _).closeTop ht

theorem feedAll {including : String → Position → Nesting → Nesting × Flow}
    {atEnd : Token → Nesting → Nesting × Flow}
    (hincluding : ∀ name pos n, Holds P n → Holds P (including name pos n).1)
    (hend : ∀ eof n, Holds P n → Holds P (atEnd eof n).1) {ts : List (Except LexError Token)}
    (hts : ∀ t, .ok t ∈ ts → P t) (h : n.Holds P) : (feedAll including atEnd ts n).1.Holds P := by
  fun_induction Nesting.feedAll including atEnd ts n with
  | case1 n => exact h
  | case2 e rest n => exact h.inject _
  | case3 t rest n hkind => exact hend t n h
  | case4 t rest n name hkind n' hgo ih =>
    have hn := hincluding name t.pos n h
    rw [hgo] at hn
    exact ih (fun u hu => hts u (List.mem_cons_of_mem _ hu)) hn
  | case5 t rest n name hkind n' hstop =>
    have hn := hincluding name t.pos n h
    rwa [hstop] at hn
  | case6 t rest n n' hgo _ _ ih =>
    have hn := h.feed (hts t List.mem_cons_self)
    rw [hgo] at hn
    exact ih (fun u hu => hts u (List.mem_cons_of_mem _ hu)) hn
  | case7 t rest n n' hstop _ _ =>
    have hn := h.feed (hts t List.mem_cons_self)
    rwa [hstop] at hn

end Holds

/-- A token of a text: it is the end or what a piece of the text spells. -/
def IsScanned (t : Token) : Prop := t.kind = .eof ∨ t.kind.Spelled

/-- Texts that are included bring no other tokens. -/
theorem Holds.includeFrom (sources : Sources) (levels : Nat) (name : String) (pos : Position)
    (h : n.Holds IsScanned) : (includeFrom sources levels name pos n).1.Holds IsScanned := by
  induction levels generalizing name pos n with
  | zero => exact h.inject _
  | succ levels ih =>
    unfold Nesting.includeFrom
    split
    · exact h.inject _
    · exact h.inject _
    · refine h.feedAll ?_ ?_ ?_
      · exact fun name pos n hn => ih name pos hn
      · exact fun _ _ hn => hn
      · exact fun t ht => Token.scanFrom_spelled ht

theorem Holds.finish (h : n.Holds P) (eof : Token) : (n.finish eof).Holds P := by
  unfold Nesting.finish
  split
  · exact ⟨h.root, h.inner⟩
  · next g gs _ =>
    have hn := h.inject (.unclosed g.kind g.opened.pos eof.pos)
    exact ⟨hn.root, hn.inner⟩

end Nesting

open Nesting in
/-- The groups of a text hold scanned tokens only. -/
theorem Group.isScanned_of_mem {sources : Sources} {unit source : String} {t : Token}
    (ht : t ∈ Item.tokensOf (Group.assemble sources unit source).items) : IsScanned t := by
  have hstart : Holds IsScanned { root := ⟨.root, ⟨.eof, Position.start unit⟩, []⟩ } :=
    ⟨⟨.inl rfl, by simp⟩, by simp⟩
  have hscan : ∀ t, .ok t ∈ Token.scan unit source → IsScanned t :=
    fun _ ht => Token.scanFrom_spelled ht
  have hlast : Holds IsScanned (feedAll (includeFrom sources maxIncludeDepth)
      (fun eof n => (n.finish eof, .stop)) (Token.scan unit source)
      { root := ⟨.root, ⟨.eof, Position.start unit⟩, []⟩ }).1 :=
    hstart.feedAll (fun name pos _ hn => hn.includeFrom sources maxIncludeDepth name pos)
      (fun eof _ hn => hn.finish eof) hscan
  obtain ⟨i, hi, ht⟩ := Item.mem_tokensOf.mp ht
  exact (hlast.closeSkipped _).root.2 i (List.mem_reverse.mp hi) t ht

/-- No name in the groups of a text has a slash in it. -/
theorem Group.slash_notMem {sources : Sources} {unit source name : String} {t : Token}
    (ht : t ∈ Item.tokensOf (Group.assemble sources unit source).items)
    (hkind : t.kind = .identifier name) : '/' ∉ name.toList := by
  have hscanned := Group.isScanned_of_mem ht
  rw [Nesting.IsScanned, hkind] at hscanned
  rcases hscanned with h | h
  · cases h
  · exact h

end Pascal
