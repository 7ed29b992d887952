import Pascal.Proofs.Group.Kept
import Pascal.Proofs.Group.Tokens

/-!
# What is wrong with the nesting shows at every level

An error is recorded in all groups that are open at the time. The open groups stand inside one another, so
what an inner one has recorded is a piece of what each outer one has recorded.
-/

namespace Pascal

namespace Group

/-- A group is nested in another one, at any level. -/
def Inside (inner outer : Group) : Prop :=
  Item.Within (.group inner.kind inner.opened inner.closed inner.items) outer.items

/-- The groups right inside a group. -/
def groups (g : Group) : List Group :=
  g.items.filterMap fun
    | .group kind opened closed items => some ⟨kind, opened, closed, items⟩
    | _ => none

theorem inside_of_mem_groups {inner outer : Group} (h : inner ∈ outer.groups) :
    inner.Inside outer := by
  obtain ⟨i, hi, hinner⟩ := List.mem_filterMap.mp h
  cases i with
  | group kind opened closed items =>
    cases hinner
    exact .here hi
  | _ => cases hinner

end Group

namespace Item

/-- What a group records is a piece of what is recorded around it, and so for the groups in it. -/
inductive Echoed : List GroupError → Item → Prop where
  | token {around : List GroupError} {t : Token} : Echoed around (.token t)
  | error {around : List GroupError} {e : GroupError} : Echoed around (.error e)
  | group {around : List GroupError} {kind : GroupKind} {opened closed : Token} {items : List Item}
      (hpiece : Group.errors ⟨kind, opened, closed, items⟩ <:+: around)
      (hitems : ∀ i ∈ items, Echoed (Group.errors ⟨kind, opened, closed, items⟩) i) :
      Echoed around (.group kind opened closed items)

theorem Echoed.mono {around wider : List GroupError} {i : Item} (h : i.Echoed around)
    (hwider : around <:+: wider) : i.Echoed wider := by
  cases h with
  | token => exact .token
  | error => exact .error
  | group hpiece hitems => exact .group (hpiece.trans hwider) hitems

/-- A group at any level records a piece of what is recorded around. -/
theorem Within.echoed {i : Item} {items : List Item} (h : Within i items) {around : List GroupError}
    (hitems : ∀ i ∈ items, Echoed around i) : i.Echoed around := by
  induction h generalizing around with
  | here h => exact hitems _ h
  | inside h _ ih =>
    cases hitems _ h with
    | group hpiece hinner => exact (ih hinner).mono hpiece

end Item

namespace OpenGroup

variable {g : OpenGroup}

/-- What an open group has recorded so far. -/
def errors (g : OpenGroup) : List GroupError :=
  Group.errors ⟨g.kind, g.opened, g.opened, g.items.reverse⟩

@[simp] theorem errors_add_error (e : GroupError) : (g.add (.error e)).errors = g.errors ++ [e] := by
  simp [errors, Group.errors, add]

@[simp] theorem errors_add_token (t : Token) : (g.add (.token t)).errors = g.errors := by
  simp [errors, Group.errors, add]

@[simp] theorem errors_add_close (inner : OpenGroup) (closed : Token) :
    (g.add (inner.close closed)).errors = g.errors := by
  simp [errors, Group.errors, add, close]

/-- All that the groups in an open group have recorded is a piece of what it has recorded itself. -/
def Echoes (g : OpenGroup) : Prop := ∀ i ∈ g.items, i.Echoed g.errors

namespace Echoes

theorem addToken (h : g.Echoes) (t : Token) : (g.add (.token t)).Echoes := by
  unfold Echoes
  rw [errors_add_token]
  exact List.forall_mem_cons.mpr ⟨.token, h⟩

theorem addError (h : g.Echoes) (e : GroupError) : (g.add (.error e)).Echoes := by
  have hpiece : g.errors <:+: g.errors ++ [e] := (List.prefix_append _ _).isInfix
  unfold Echoes
  rw [errors_add_error]
  exact List.forall_mem_cons.mpr ⟨.error, fun i hi => (h i hi).mono hpiece⟩

/-- A group that is closed has recorded the end of what the group around it has recorded. -/
theorem addClosed (h : g.Echoes) {inner : OpenGroup} (hinner : inner.Echoes)
    (hsuffix : inner.errors <:+ g.errors) (closed : Token) : (g.add (inner.close closed)).Echoes := by
  unfold Echoes
  rw [errors_add_close]
  refine List.forall_mem_cons.mpr ⟨.group hsuffix.isInfix fun i hi => ?_, h⟩
  exact hinner i (List.mem_reverse.mp hi)

end Echoes

end OpenGroup

namespace Nesting

variable {n : Nesting}

/-- What all ways to go on keep. -/
structure Steady (I : Nesting → Prop) : Prop where
  opens : ∀ {n kind opened}, I n → I { n with inner := ⟨kind, opened, []⟩ :: n.inner }
  adds : ∀ {n t}, I n → I (n.add (.token t))
  injects : ∀ {n e}, I n → I (n.inject e)
  closes : ∀ {n closed}, I n → I (n.closeTop closed)
  ends : ∀ {n eof}, I n → I { n with ended := some eof }

namespace Steady

variable {I : Nesting → Prop} (h : Steady I)

include h

theorem closeSkipped (hn : I n) (k : Nat) : I (n.closeSkipped k) := by
  induction k generalizing n with
  | zero => exact hn
  | succ k ih => exact ih (h.closes hn)

theorem feed (hn : I n) (t : Token) : I (n.feed t).1 := by
  rcases n.feed_cases t with ⟨kind, -, hfeed⟩ | ⟨-, hfeed⟩ | ⟨-, -, -, hfeed⟩ | ⟨g, outer, -, -, hfeed⟩ |
    ⟨skipped, g, outer, -, -, -, hfeed⟩ <;> rw [hfeed]
  · exact h.opens hn
  · exact h.adds hn
  · exact h.injects hn
  · exact h.closes hn
  · exact h.closes (h.closeSkipped (h.injects hn) _)

theorem finish (hn : I n) (eof : Token) : I (n.finish eof) := by
  unfold Nesting.finish
  split
  · exact h.ends hn
  · exact h.ends (h.injects hn)

theorem feedAll {including : String → Position → Nesting → Nesting × Flow}
    {atEnd : Token → Nesting → Nesting × Flow}
    (hincluding : ∀ name pos n, I n → I (including name pos n).1)
    (hend : ∀ eof n, I n → I (atEnd eof n).1) (hn : I n) (rs : List (Except LexError Token)) :
    I (Nesting.feedAll including atEnd rs n).1 := by
  fun_induction Nesting.feedAll including atEnd rs n with
  | case1 => exact hn
  | case2 => exact h.injects hn
  | case3 => exact hend _ _ hn
  | case4 t rest n name _ n' hgo ih =>
    have hincluded := hincluding name t.pos n hn
    rw [hgo] at hincluded
    exact ih hincluded
  | case5 t rest n name _ n' hstop =>
    have hincluded := hincluding name t.pos n hn
    rwa [hstop] at hincluded
  | case6 t rest n n' hgo _ _ ih =>
    have hfed := h.feed hn t
    rw [hgo] at hfed
    exact ih hfed
  | case7 t rest n n' hstop =>
    have hfed := h.feed hn t
    rwa [hstop] at hfed

theorem includeFrom (sources : Sources) (levels : Nat) (name : String) (pos : Position) (n : Nesting)
    (hn : I n) : I (Nesting.includeFrom sources levels name pos n).1 := by
  induction levels generalizing name pos n with
  | zero => exact h.injects hn
  | succ levels ih =>
    unfold Nesting.includeFrom
    split
    · exact h.injects hn
    · exact h.injects hn
    · exact h.feedAll ih (fun _ _ => id) hn _

end Steady

/-- The groups that are open, the innermost first and the root last. -/
def stack (n : Nesting) : List OpenGroup := n.inner ++ [n.root]

/-- What a group of the stack has recorded is the end of what the groups around it have recorded. -/
structure Echoes (n : Nesting) : Prop where
  items : ∀ g ∈ n.stack, g.Echoes
  levels : n.stack.Pairwise fun inner outer => inner.errors <:+ outer.errors

theorem stack_inject (e : GroupError) : (n.inject e).stack = n.stack.map (·.add (.error e)) := by
  simp [stack, inject]

theorem stack_add {g : OpenGroup} {around : List OpenGroup} (h : n.stack = g :: around) (i : Item) :
    (n.add i).stack = g.add i :: around := by
  unfold add
  split
  · next hnil =>
    simp only [stack, hnil, List.nil_append, List.cons.injEq] at h ⊢
    exact ⟨congrArg (·.add i) h.1, h.2⟩
  · next top outer hcons =>
    simp only [stack, hcons, List.cons_append, List.cons.injEq] at h ⊢
    exact ⟨congrArg (·.add i) h.1, h.2⟩

theorem exists_stack (n : Nesting) : ∃ g around, n.stack = g :: around :=
  List.exists_cons_of_ne_nil (List.append_ne_nil_of_right_ne_nil _ (List.cons_ne_nil _ _))

theorem steady_echoes : Steady Echoes where
  opens h := by
    constructor
    · exact List.forall_mem_cons.mpr ⟨fun i hi => by simp at hi, h.items⟩
    · exact List.pairwise_cons.mpr ⟨fun _ _ => List.nil_suffix, h.levels⟩
  adds {n t} h := by
    obtain ⟨g, around, hstack⟩ := n.exists_stack
    obtain ⟨hg, haround⟩ := List.forall_mem_cons.mp (hstack ▸ h.items)
    obtain ⟨hlevel, hlevels⟩ := List.pairwise_cons.mp (hstack ▸ h.levels)
    constructor
    · rw [stack_add hstack]
      exact List.forall_mem_cons.mpr ⟨hg.addToken t, haround⟩
    · rw [stack_add hstack]
      exact List.pairwise_cons.mpr ⟨by simpa using hlevel, hlevels⟩
  injects {n e} h := by
    constructor
    · rw [stack_inject]
      exact List.forall_mem_map.mpr fun g hg => (h.items g hg).addError e
    · rw [stack_inject, List.pairwise_map]
      refine h.levels.imp fun hlevel => ?_
      rw [OpenGroup.errors_add_error, OpenGroup.errors_add_error]
      exact List.suffix_append_self_iff.mpr hlevel
  closes {n closed} h := by
    unfold closeTop
    split
    · exact h
    · next g outer hcons =>
      obtain ⟨next, around, hstack⟩ := exists_stack { n with inner := outer }
      have hall : n.stack = g :: next :: around := by rw [← hstack, stack, hcons]; rfl
      obtain ⟨hg, hrest⟩ := List.forall_mem_cons.mp (hall ▸ h.items)
      obtain ⟨hnext, haround⟩ := List.forall_mem_cons.mp hrest
      obtain ⟨hsuffix, hlevels⟩ := List.pairwise_cons.mp (hall ▸ h.levels)
      obtain ⟨hlevel, hlevels⟩ := List.pairwise_cons.mp hlevels
      have hadded := hnext.addClosed hg (hsuffix next List.mem_cons_self) closed
      constructor
      · rw [stack_add hstack]
        exact List.forall_mem_cons.mpr ⟨hadded, haround⟩
      · rw [stack_add hstack]
        exact List.pairwise_cons.mpr ⟨by simpa using hlevel, hlevels⟩
  ends h := ⟨h.items, h.levels⟩

end Nesting

namespace Group

/-- What holds in the beginning and is kept holds of the root once everything in it is closed. -/
theorem assemble_steady {I : Nesting → Prop} (h : Nesting.Steady I) (sources : Sources)
    (unit source : String) (hbegin : I { root := ⟨.root, ⟨.eof, .start unit⟩, []⟩ }) :
    ∃ n, I n ∧ n.root.items.reverse = (assemble sources unit source).items := by
  have hend : ∀ eof n, I n → I ((fun eof n => (n.finish eof, Nesting.Flow.stop)) eof n).1 :=
    fun eof n hn => h.finish hn eof
  have hfed := h.feedAll (h.includeFrom sources maxIncludeDepth) hend hbegin (Token.scan unit source)
  exact ⟨_, h.closeSkipped hfed _, rfl⟩

/-- What a group at any level has recorded is a piece of what each group around it has recorded. -/
theorem assemble_echoed (sources : Sources) (unit source : String) {i : Item}
    (h : Item.Within i (assemble sources unit source).items) :
    i.Echoed (assemble sources unit source).errors := by
  have hbegin : Nesting.Echoes { root := ⟨.root, ⟨.eof, .start unit⟩, []⟩ } :=
    ⟨by simp [Nesting.stack, OpenGroup.Echoes], by simp [Nesting.stack]⟩
  obtain ⟨n, hn, hitems⟩ := assemble_steady Nesting.steady_echoes sources unit source hbegin
  have hroot : n.root.Echoes := hn.items _ (by simp [Nesting.stack])
  have herrors : n.root.errors = (assemble sources unit source).errors := by
    simp only [OpenGroup.errors, errors, hitems]
  refine h.echoed fun i hi => ?_
  rw [← hitems] at hi
  exact herrors ▸ hroot i (List.mem_reverse.mp hi)

end Group

end Pascal
