import Pascal.Proofs.Program.Order
import Mathlib.Data.Finset.Card

/-!
# The bound on units inside one another

A unit that is being loaded cannot be loaded again, and its name is that of a file. As long as there are
more levels than files of other units, one more level makes no difference.
-/

namespace Pascal

namespace Parser

variable {α β : Type} {P : Cursor → Prop} {S : α → Cursor → Prop} {p p' : Parser α}

/-- Two readers do the same on cursors with `P`. -/
def Agrees (P : Cursor → Prop) (p p' : Parser α) : Prop := ∀ c, P c → p c = p' c

namespace Agrees

theorem refl (p : Parser α) : p.Agrees P p := fun _ _ => rfl

theorem of_and {A : Prop} (h : A → p.Agrees P p') : p.Agrees (fun c => P c ∧ A) p' :=
  fun c hc => h hc.2 c hc.1

theorem of_known {A : Prop} (h : A → p.Agrees P p') : p.Agrees (fun c => A ∧ P c) p' :=
  fun c hc => h hc.1 c hc.2

theorem of_prop {A : Prop} (h : A → p.Agrees (fun _ => True) p') : p.Agrees (fun _ => A) p' :=
  fun c hc => h hc c trivial

theorem of_exists {ι : Type} {P : ι → Cursor → Prop} {A : ι → Prop}
    (h : ∀ i, A i → p.Agrees (P i) p') : p.Agrees (fun c => ∃ i, P i c ∧ A i) p' :=
  fun c ⟨i, hc, hi⟩ => h i hi c hc

theorem bind {f f' : α → Parser β} (hp : p.Agrees P p') (hm : p.Meets P S)
    (hf : ∀ a, (f a).Agrees (S a) (f' a)) : (p >>= f).Agrees P (p' >>= f') := by
  intro c hc
  change (p c >>= fun r => f r.1 r.2) = (p' c >>= fun r => f' r.1 r.2)
  rw [← hp c hc]
  cases hr : p c with
  | error e => rfl
  | ok r => exact hf r.1 r.2 (hm hc hr)

/-- The first steps are the same. -/
theorem behind {f f' : α → Parser β} (hm : p.Meets P S) (hf : ∀ a, (f a).Agrees (S a) (f' a)) :
    (p >>= f).Agrees P (p >>= f') :=
  (refl p).bind hm hf

/-- The last steps are the same. -/
theorem before {f : α → Parser β} (hp : p.Agrees P p') : (p >>= f).Agrees P (p' >>= f) :=
  hp.bind (S := fun _ _ => True) (fun _ _ _ _ _ => trivial) fun a => refl (f a)

theorem map {f : α → β} (hp : p.Agrees P p') : (f <$> p).Agrees P (f <$> p') := by
  have he : ∀ q : Parser α, f <$> q = q >>= fun a => pure (f a) := by
    intro q
    rw [bind_pure_comp]
  rw [he, he]
  exact hp.before

theorem iterate {step step' : α → Parser (Option α)}
    (hm : ∀ a, (step a).Meets (S a) (fun b c => S (b.getD a) c))
    (h : ∀ a, (step a).Agrees (S a) (step' a)) (a : α) :
    (Parser.iterate step a).Agrees (S a) (Parser.iterate step' a) := by
  have hw : ∀ n a, (iterateWithin step n a).Agrees (S a) (iterateWithin step' n a) := by
    intro n
    induction n with
    | zero => exact fun a => refl _
    | succ n ih =>
      intro a
      refine (h a).bind (hm a) fun b => ?_
      cases b with
      | none => exact refl _
      | some b => exact ih b
  exact fun c hc => hw _ a c hc

theorem inside {Q : Cursor → Prop} {g : Group} (hg : P (.ofGroup g)) (h : p.Agrees P p') :
    (Parser.inside g p).Agrees Q (Parser.inside g p') := by
  intro c _
  have hwhole : (p >>= fun a => done >>= fun _ => pure a).Agrees P
      (p' >>= fun a => done >>= fun _ => pure a) := h.before
  change (do return ((← (p >>= fun a => done >>= fun _ => pure a) (.ofGroup g)).1, c)) = _
  rw [hwhole _ hg]
  rfl

end Agrees

end Parser

theorem Group.parse_congr {α : Type} {g : Group} {p p' : Parser α} (h : p (.ofGroup g) = p' (.ofGroup g)) :
    g.parse p = g.parse p' := by
  unfold Group.parse
  rw [h]

namespace Session

variable {t : Toolchain} {s s' : Session} {roots names rest : List String}

/-- The names of units that files tell and that are not being loaded. -/
def pending (t : Toolchain) (s : Session) : Finset String :=
  (t.sources.disk.entries.map fun e => e.1.unitKey).toFinset.filter
    fun key => s.unitState? key ≠ some .loading

theorem card_pending_le (t : Toolchain) (s : Session) :
    (s.pending t).card ≤ t.sources.disk.entries.length := by
  calc (s.pending t).card
      ≤ (t.sources.disk.entries.map fun e => e.1.unitKey).toFinset.card := Finset.card_filter_le _ _
    _ ≤ (t.sources.disk.entries.map fun e => e.1.unitKey).length := List.toFinset_card_le _
    _ = t.sources.disk.entries.length := List.length_map _

theorem Adds.pending (h : s.Adds t roots s') : s'.pending t = s.pending t := by
  unfold Session.pending
  apply Finset.filter_congr
  intro key _
  exact not_congr (h.loading key)

theorem Passes.pending (h : s.Passes t names rest s') : s'.pending t = s.pending t := by
  obtain ⟨used, -, hadds⟩ := h.adds
  exact hadds.pending

theorem Passes.rest_subset (h : s.Passes t names rest s') : rest ⊆ names := by
  obtain ⟨used, rfl, -⟩ := h.adds
  exact List.subset_append_right ..

/-- A unit that begins to be loaded is pending no more. -/
theorem card_pending_mark {key : String} (hstate : s.unitState? key = none)
    (hfile : ∃ e ∈ t.sources.disk.entries, e.1.unitKey = key) :
    ((s.mark key .loading).pending t).card < (s.pending t).card := by
  apply Finset.card_lt_card
  rw [Finset.ssubset_iff_of_subset]
  · refine ⟨key, ?_, ?_⟩
    · obtain ⟨e, he, hkey⟩ := hfile
      simp only [pending, Finset.mem_filter, List.mem_toFinset, List.mem_map]
      exact ⟨⟨e, he, hkey⟩, by simp [hstate]⟩
    · simp [pending]
  · intro key' hkey'
    simp only [pending, Finset.mem_filter, unitState?_mark] at hkey' ⊢
    refine ⟨hkey'.1, ?_⟩
    by_cases he : key = key'
    · simp [he] at hkey'
    · simpa [he] using hkey'.2

end Session

/-- Two loaders do the same with units that can be in files, as long as less than some number of units is
pending. -/
def UnitLoader.AgreesBelow (t : Toolchain) (bound : Nat) (load load' : UnitLoader) : Prop :=
  ∀ name pos (s : Session), '/' ∉ name.toList → s.Settled t → (s.pending t).card < bound →
    load name pos s = load' name pos s

namespace Parser.Agrees

open Session

variable {t : Toolchain} {load load' : UnitLoader} {bound scope : Nat} {s : Session}
  {names : List String} (hload : load.Loads t) (horders : load.Orders t)
  (hagrees : load.AgreesBelow t bound load') (hslash : ∀ name ∈ names, '/' ∉ name.toList)

include hagrees hslash

theorem usedName (hs : s.Settled t) (hbound : (s.pending t).card < bound) :
    (Parser.usedName t load scope s).Agrees (Cursor.InClause names)
      (Parser.usedName t load' scope s) := by
  refine Agrees.behind Meets.clauseName fun found => ?_
  obtain ⟨name, p⟩ := found
  rintro c ⟨rest, rfl, -⟩
  have hsame := hagrees name p s (hslash name List.mem_cons_self) hs hbound
  dsimp only
  cases s.library? t name with
  | some found => rfl
  | none => rw [hsame]

include hload horders

theorem uses (hs : s.Settled t) (hbound : (s.pending t).card < bound) :
    (Parser.uses t load scope s).Agrees (Cursor.Waits names) (Parser.uses t load' scope s) := by
  refine Agrees.behind Meets.eatUses fun b => ?_
  cases b with
  | false => exact Agrees.refl _
  | true =>
    refine (usedName hagrees hslash hs hbound).bind (Meets.usedName hload horders hs) fun s₁ => ?_
    refine (Agrees.iterate (Meets.nextName hload horders s) (fun s₂ => ?_) s₁).before
    refine Agrees.of_exists fun rest hpasses => Agrees.behind Meets.eatComma fun b => ?_
    cases b with
    | false => exact Agrees.refl _
    | true =>
      have hrest : ∀ name ∈ rest, '/' ∉ name.toList :=
        fun name hname => hslash name (hpasses.rest_subset hname)
      exact (usedName hagrees hrest hpasses.settled (hpasses.pending ▸ hbound)).map

theorem program (hs : s.Settled t) (hbound : (s.pending t).card < bound) :
    (Parser.program t load scope s).Agrees (Cursor.Waits names) (Parser.program t load' scope s) := by
  refine Agrees.behind (Yields.programHeading (Cursor.guard_waits names)) fun _ =>
    Agrees.of_known fun _ => ?_
  exact (uses hload horders hagrees hslash hs hbound).before

theorem unitBody (hs : s.Settled t) (hscope : scope < s.arena.scopes.size)
    (hbound : (s.pending t).card < bound) :
    (Parser.unitBody t load scope s).Agrees (Cursor.Waits names)
      (Parser.unitBody t load' scope s) := by
  have hguard := Cursor.guard_waits names
  refine Agrees.behind (Yields.identifier hguard) fun _ => Agrees.of_known fun _ => ?_
  refine Agrees.behind (Yields.expectSymbol hguard) fun _ => Agrees.of_known fun _ => ?_
  refine Agrees.behind (Yields.expectKeyword hguard (by simp)) fun _ => Agrees.of_known fun _ => ?_
  refine (uses hload horders hagrees hslash hs hbound).bind (Meets.uses hload horders hs) fun s₁ => ?_
  refine Agrees.of_exists fun mid h₁ => ?_
  have hscope₁ := hscope.trans_le h₁.scopes
  refine Agrees.behind (Meets.declare h₁.settled hscope₁) fun s₂ => Agrees.of_and fun h₂ => ?_
  have hmid := Cursor.guard_waits mid
  refine Agrees.behind (Yields.expectKeyword hmid (by simp)) fun _ => Agrees.of_known fun _ => ?_
  have hslash₂ : ∀ name ∈ mid, '/' ∉ name.toList := fun name hname => hslash name (h₁.rest_subset hname)
  have hbound₂ : (s₂.pending t).card < bound := by
    rw [h₂.pending, h₁.pending]
    exact hbound
  exact (uses hload horders hagrees hslash₂ h₂.settled hbound₂).before

end Parser.Agrees

namespace Toolchain

open Session

variable {t : Toolchain} {s : Session}

/-- Reading a unit does the same with loaders that agree on the units it can use. -/
theorem compileUnit_congr (source name : String) {load load' : UnitLoader} {bound : Nat}
    (hload : load.Loads t)
    (horders : load.Orders t) (hagrees : load.AgreesBelow t bound load') (hs : s.Settled t)
    (hbound : (s.pending t).card < bound) :
    t.compileUnit load source name s = t.compileUnit load' source name s := by
  obtain ⟨hsettled, hadds, hscope⟩ := open_settled name hs (.inr rfl)
  rw [← hadds.pending] at hbound
  have hslash : ∀ used ∈ Item.usedNames false (Group.assemble t.sources name source).unitItems,
      '/' ∉ used.toList :=
    fun used hused => Group.slash_notMem_usedNames (.inr rfl) hused
  unfold compileUnit
  apply Group.parse_congr
  have hall : (Parser.unitGroup).Meets (· = .ofGroup (Group.assemble t.sources name source))
      (fun g _ => g.items = (Group.assemble t.sources name source).unitItems) :=
    Parser.Meets.unitGroup
  refine Parser.Agrees.behind hall (fun g => Parser.Agrees.of_prop fun hg => ?_) _ rfl
  refine Parser.Agrees.before (Parser.Agrees.inside ?_
    (Parser.Agrees.unitBody hload horders hagrees hslash hsettled hscope hbound))
  rw [Cursor.Waits, ← hg]
  rfl

/-- One more level makes no difference where there are more levels than pending units. -/
theorem loadWithin_agrees (t : Toolchain) (depth more : Nat) :
    (t.loadWithin depth).AgreesBelow t depth (t.loadWithin (depth + more)) := by
  induction depth with
  | zero => exact fun name pos s _ _ hbound => absurd hbound (Nat.not_lt_zero _)
  | succ depth ih =>
    intro name pos s hslash hs hbound
    rw [Nat.succ_add, loadWithin, loadWithin]
    cases hstate : s.unitState? (Text.lower name) with
    | some state => cases state <;> simp only
    | none =>
      cases hsource : t.unitSource name pos with
      | error e => simp only [bind, Except.bind]
      | ok source =>
        have hless := card_pending_mark hstate (exists_entry_of_unitSource hslash hsource)
        have hbelow : ((s.mark (Text.lower name) .loading).pending t).card < depth := by omega
        have hunit := compileUnit_congr source name (loadWithin_loads t depth)
          (loadWithin_orders t depth) ih (hs.begins hstate) hbelow
        simp only [bind, Except.bind, hunit]

end Toolchain

end Pascal
