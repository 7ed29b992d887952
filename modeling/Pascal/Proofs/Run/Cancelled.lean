import Pascal.Proofs.Machine.Outcomes
import Pascal.Proofs.Program.Natives
import Pascal.Proofs.Run.Observed

/-!
# Cancelling a run

A run that its listener cancels goes on side by side with the run that is not cancelled until a check
stops it. What it has shown by then is the beginning of what the other run shows.
-/

namespace Pascal

theorem Console.output_of_suffix {c c' : Console} (h : c.shown <:+ c'.shown) :
    ∃ rest, c'.output = c.output ++ rest := by
  obtain ⟨later, hlater⟩ := h
  unfold output
  rw [← hlater, List.foldr_append]
  generalize c.shown.foldr _ "" = text
  clear hlater
  induction later with
  | nil => exact ⟨"", by simp⟩
  | cons e later ih =>
    obtain ⟨rest, hrest⟩ := ih
    rw [List.foldr_cons, hrest]
    cases e with
    | text t => exact ⟨rest ++ t, String.append_assoc ..⟩
    | clear => exact ⟨rest, rfl⟩

namespace World

variable {w : World} {d : Disk}

/-- A world with a disk and no open files. -/
structure Idle (w : World) (d : Disk) : Prop where
  disk : w.disk = d
  files : ∀ f ∈ w.files, f.state = .closed

namespace Idle

theorem alloc (h : w.Idle d) (v : Value) : (w.alloc v).2.Idle d := ⟨h.disk, h.files⟩

theorem initialValue (h : w.Idle d) (t : Ty) : (w.initialValue t).2.Idle d := by
  unfold World.initialValue
  split
  · refine ⟨h.disk, fun f hf => ?_⟩
    rcases Array.mem_push.mp hf with hf | rfl
    · exact h.files f hf
    · rfl
  · exact h

theorem addSlots (h : w.Idle d) (vs : List Variable) (slots : List (String × Ref)) :
    (w.addSlots slots vs).2.Idle d := by
  induction vs generalizing w slots with
  | nil => exact h
  | cons v vs ih =>
    have hvariable : (w.allocVariable v).2.Idle d := by
      unfold World.allocVariable
      split
      · exact h.alloc _
      · exact (h.initialValue v.ty).alloc _
    unfold World.addSlots
    dsimp only
    split
    · exact ih h slots
    · exact ih hvariable _

theorem globalFrames {p : Program} {scopes : List Nat} (h : w.Idle d) :
    (p.globalFrames scopes w).2.Idle d := by
  induction scopes generalizing w with
  | nil => exact h
  | cons scope scopes ih => exact ih (h.addSlots _ _)

end Idle

end World

/-- Where no file is open, letting files go delivers nothing. -/
theorem Machine.idle_releaseAll {m : Machine} {d : Disk} (h : m.world.Idle d) :
    m.releaseAll.world.Idle d := by
  have hgo : ∀ (ns : List Nat) (m : Machine), m.world.Idle d → (ns.foldl letGo m).world.Idle d := by
    intro ns
    induction ns with
    | nil => exact fun m h => h
    | cons n ns ih =>
      refine fun m h => ih (m.letGo n) ⟨?_, fun f hf => ?_⟩
      · have hclosed : (m.world.file n).state = .closed := by
          unfold World.file
          cases hf : m.world.files[n]? with
          | none => rfl
          | some f => exact h.files f (Array.mem_of_getElem? hf)
        change (m.world.file n).release m.world.disk = d
        rw [TextFile.release, hclosed]
        exact h.disk
      · rcases Array.mem_or_eq_of_mem_setIfInBounds hf with hf | rfl
        · exact h.files f hf
        · rfl
  exact hgo _ m h

namespace Signs

variable {n : Nat} {s t : Signs}

/-- The signs of a run that is cancelled at some line, next to those of one that is not: they are the
same but for the flag, which is set with the line that is one too many. -/
structure InStep (n : Nat) (s t : Signs) : Prop where
  reports : s.reports = t.reports
  shown : s.shown = t.shown
  going : t.cancelled = false
  counted : s.linesReported = s.lines.length
  limit : s.linesReported ≤ n + s.cancelled.toNat

/-- The signs of a run that has been cut, next to those of the other one. -/
structure Behind (n : Nat) (s t : Signs) : Prop where
  reports : s.reports <:+ t.reports
  shown : s.shown <:+ t.shown
  going : t.cancelled = false
  limit : s.lines.length ≤ n + 1

theorem InStep.behind (h : s.InStep n t) : s.Behind n t where
  reports := h.reports ▸ List.suffix_rfl
  shown := h.shown ▸ List.suffix_rfl
  going := h.going
  limit := by
    have hlimit := h.limit
    have hflag := s.cancelled.toNat_le
    rw [← h.counted]
    omega

end Signs

namespace Run

variable {α : Type} {n : Nat}

/-- A run that may be cut next to one that is not cancelled. -/
abbrev Chased (n : Nat) {α : Type} (x y : Run α) : Prop :=
  Pair (Signs.InStep n) (Signs.Behind n) x y

theorem Chased.checkCancelled : Chased n Run.checkCancelled Run.checkCancelled where
  beside m₁ m₂ h := by
    have hgoing : m₂.world.cancelled = false := h.signs.going
    have hpassed : Run.checkCancelled m₂ = .ok () m₂ := by simp [Run.checkCancelled, hgoing]
    rw [hpassed, Run.checkCancelled]
    split
    · exact .cut none h.signs.behind
    · exact .ok () h
  goesOn m s hs := by
    unfold Run.checkCancelled
    split <;> exact hs

/-- Library routines go on side by side, or the one in the cancelled run stops there. -/
theorem Chased.ofHost (name : String) {x : Host α} (hx : x.Heeds) :
    Chased n (Run.ofHost name x) (Run.ofHost name x) where
  beside m₁ m₂ h := by
    have hgoing : m₂.world.cancelled = false := h.signs.going
    have hworld : m₁.world = m₂.world.withCancelled m₁.world.cancelled := by
      refine (congrArg Machine.world h.same).trans ?_
      change m₂.world.withSigns m₁.signs = _
      rw [World.withSigns, h.signs.shown]
      rfl
    have hlevel : ∀ w w' : World, w'.cancelled = false → w = w'.withCancelled m₁.world.cancelled →
        Machine.Level (Signs.InStep n) { m₁ with world := w } { m₂ with world := w' } := by
      rintro w w' hw' rfl
      refine ⟨?_, h.signs.reports, rfl, hw', h.signs.counted, h.signs.limit⟩
      have hsame := congrArg (fun m : Machine => { m with
        world := w'.withCancelled m₁.world.cancelled }) h.same
      exact hsame
    have hquiet := hx.quiet m₂.world hgoing
    unfold Run.ofHost
    cases hflag : m₁.world.cancelled with
    | false =>
      have hsame : ∀ w : World, w.cancelled = false → w = w.withCancelled false := by
        intro w hw
        rw [World.withCancelled, ← hw]
      rw [hflag, ← hsame _ hgoing] at hworld
      rw [hflag] at hlevel
      rw [hworld]
      cases hr : x m₂.world with
      | ok a w =>
        rw [hr] at hquiet
        exact .ok a (hlevel w w hquiet (hsame w hquiet))
      | error e w =>
        rw [hr] at hquiet
        cases e <;> exact .error _ (hlevel w w hquiet (hsame w hquiet))
    | true =>
      have hcut := hx.cut m₂.world hgoing
      rw [hflag] at hworld hlevel
      rw [hworld]
      generalize x m₂.world = r at hcut hquiet
      generalize x (m₂.world.withCancelled true) = r' at hcut
      cases hcut with
      | same =>
        cases r with
        | ok a w => exact .ok a (hlevel _ w hquiet rfl)
        | error e w => cases e <;> exact .error _ (hlevel _ w hquiet rfl)
      | stopped hw hshown =>
        have hbehind := h.signs.behind
        cases r with
        | ok a w => exact .cut none ⟨hbehind.reports, hshown, hquiet, hbehind.limit⟩
        | error e w =>
          cases e <;> exact .cut none ⟨hbehind.reports, hshown, hquiet, hbehind.limit⟩
  goesOn m s hs := by
    have hquiet := hx.quiet m.world hs.going
    have hgrows := hx.grows m.world hs.going
    have hafter : ∀ w, w.cancelled = false → m.world.console.shown <:+ w.console.shown →
        s.Behind n ({ m with world := w } : Machine).signs :=
      fun w hw hshown => ⟨hs.reports, hs.shown.trans hshown, hw, hs.limit⟩
    unfold Run.ofHost
    cases hr : x m.world with
    | ok a w =>
      rw [hr] at hquiet hgrows
      exact hafter w hquiet hgrows
    | error e w =>
      rw [hr] at hquiet hgrows
      cases e <;> exact hafter w hquiet hgrows

section

variable {env env' : Env}

/-- A listener that never cancels a run lets it go on. -/
theorem goesOn_announce (hl : env.listener = some {}) {m : Machine} {s : Signs} (chain : Chain)
    (pos : Position) (h : s.Behind n m.signs) : s.Behind n (m.announce env chain pos).signs := by
  rw [m.announce_heard env chain pos hl, Machine.signs_withSigns]
  exact ⟨h.reports.trans (List.suffix_append ..), h.shown, (Bool.or_false _).trans h.going, h.limit⟩

/-- A line that two listeners are told while neither has cancelled its run. -/
theorem inStep_announce (hl : env.listener = some { cancelAfter := some n })
    (hl' : env'.listener = some {}) (htold : env.told = env'.told) {m₁ m₂ : Machine}
    (h : m₁.Level (Signs.InStep n) m₂) (hflag : m₁.world.cancelled = false) (chain : Chain)
    (pos : Position) :
    (m₁.announce env chain pos).Level (Signs.InStep n) (m₂.announce env' chain pos) := by
  have hsame : env.told chain pos m₁.world = env'.told chain pos m₂.world := by
    rw [htold, h.same]
    exact env'.told_withSigns chain pos m₂.world m₁.signs
  have hlimit : m₁.linesReported ≤ n := by
    have hlimit : m₁.linesReported ≤ n + m₁.world.cancelled.toNat := h.signs.limit
    rwa [hflag] at hlimit
  rw [m₁.announce_heard env chain pos hl, m₂.announce_heard env' chain pos hl']
  refine h.withSigns ⟨?_, h.signs.shown, (Bool.or_false _).trans h.signs.going, ?_, ?_⟩
  · rw [hsame]
    exact congrArg (env'.told chain pos m₂.world ++ ·) h.signs.reports
  · have hcounted : m₁.linesReported = (m₁.reports.filterMap Report.line?).length := h.signs.counted
    simp only [Signs.lines, List.filterMap_append, Env.lines_told, List.length_append, hcounted,
      List.length_singleton, Nat.add_comm]
  · dsimp only [Listener.cancelsAt]
    rw [hflag, Bool.false_or]
    by_cases hn : n < m₁.linesReported + 1
    · simp only [hn, decide_true, Bool.toNat_true]
      omega
    · omega

/-- Before a statement the run that is not cancelled goes on, and the other one does so too or stops
before the line is told. -/
theorem Chased.opening (hl : env.listener = some { cancelAfter := some n })
    (hl' : env'.listener = some {}) (htold : env.told = env'.told) (chain : Chain) (s : Stmt) :
    Chased n (Run.opening env chain s) (Run.opening env' chain s) := by
  have hgoesOn : ∀ (m : Machine) (t : Signs), t.Behind n m.signs →
      t.Behind n (after (Run.opening env' chain s m)).signs := by
    intro m t ht
    rw [Run.opening_of_live env' chain s ht.going]
    change t.Behind n (if s.isBlock then m else m.announce env' chain s.pos).signs
    split
    · exact ht
    · exact goesOn_announce hl' chain s.pos ht
  refine ⟨fun m₁ m₂ h => ?_, hgoesOn⟩
  cases hflag : m₁.world.cancelled with
  | true =>
    rw [Run.opening_of_cancelled env chain s hflag]
    exact .cut _ (hgoesOn m₂ _ h.signs.behind)
  | false =>
    rw [Run.opening_of_live env chain s hflag, Run.opening_of_live env' chain s h.signs.going]
    refine .ok () ?_
    split
    · exact h
    · exact inStep_announce hl hl' htold h hflag chain s.pos

end

/-- A computation stops as cancelled only if the run has been cancelled. -/
def Marked (x : Run α) : Prop :=
  ∀ m m' pos, x m = .error (.fault .cancelled pos) m' → m'.world.cancelled = true

theorem Marked.within {x : Run α} (a : Around) (h : Marked x) : Marked (a.perform x) := by
  intro m m' pos he
  rw [a.perform_eq] at he
  cases hr : x (a.enter m) with
  | ok v m₁ => rw [hr] at he; cases a <;> cases he
  | error e m₁ =>
    rw [hr] at he
    cases a with
    | located place =>
      cases e with
      | exhausted => cases he
      | fault f pos =>
        cases pos <;>
          · cases he
            exact h _ _ _ hr
    | holding vs =>
      cases he
      exact h _ m₁ _ hr
    | activating f =>
      cases he
      exact h _ m₁ _ hr

theorem Marked.bind {β : Type} {x : Run α} {f : α → Run β} (hx : Marked x)
    (hf : ∀ a, Marked (f a)) : Marked (x >>= f) := by
  intro m m' pos he
  rcases EStateM.bind_eq_error_iff.mp he with hr | ⟨a, m₁, -, he⟩
  · exact hx m m' pos hr
  · exact hf a m₁ m' pos he

theorem Marked.congruence : Congruence fun x _ => Marked x where
  inert hx m m' pos he := absurd he (hx.heedless m m' pos)
  bind hx hf := hx.bind hf
  located pos h := h.within (.located pos)
  holding vs h := h.within (.holding vs)
  activating f h := h.within (.activating f)

theorem Marked.checkCancelled : Marked checkCancelled := by
  intro m m' pos he
  unfold Run.checkCancelled at he
  split at he
  · next hflag =>
    cases he
    exact hflag
  · cases he

theorem Marked.ofHost (name : String) {x : Host α} (hx : x.Heeds) : Marked (ofHost name x) := by
  intro m m' pos he
  unfold Run.ofHost at he
  split at he
  · cases he
  · next hr =>
    cases he
    exact (hx.marked hr rfl).2
  · cases he

end Run

namespace Env

variable {env env' : Env}

theorem chased (hp : env.program.Heeds) (n : Nat) (hl : env.listener = some { cancelAfter := some n })
    (henv : env' = { env with listener := some {} }) : env.Parallel (Run.Chased n) env' := by
  subst henv
  refine ⟨⟨⟨rfl, fun caller caller' chain id args => ?_⟩, rfl, Run.Chased.checkCancelled,
    Run.Chased.opening hl rfl rfl⟩, rfl⟩
  unfold Env.call
  dsimp only
  split
  · next r hr => exact Run.Chased.ofHost r.name (hp id r hr _)
  · exact Run.Pair.congruence.inert (.fail (by simp))

theorem marked (hp : env.program.Heeds) : env.Parallel (fun x _ => Run.Marked x) env := by
  refine ⟨⟨⟨rfl, fun caller caller' chain id args => ?_⟩, rfl, Run.Marked.checkCancelled,
    fun chain s => ?_⟩, rfl⟩
  · unfold Env.call
    dsimp only
    split
    · next r hr => exact Run.Marked.ofHost r.name (hp id r hr _)
    · exact Run.Marked.congruence.inert (.fail (by simp))
  · exact (Run.Marked.checkCancelled.within (.located s.pos)).bind fun _ m m' pos he => by cases he

end Env

theorem Outcome.ofStop_eq_cancelled {e : Stop} {pos : Option Position}
    (h : ofStop e = .cancelled pos) : e = .fault .cancelled pos := by
  unfold ofStop at h
  split at h <;> cases h
  rfl

namespace Program

variable {p : Program}

/-- What is left of a run that a listener cancels after so many lines, next to the same run with a
listener that does not cancel it. -/
structure CutShort (n : Nat) (r r' : Outcome × Machine) : Prop where
  lines : r.2.lines.length ≤ n + 1
  /-- The latest reports come first. -/
  reports : r.2.reports <:+ r'.2.reports
  shown : r.2.world.console.shown <:+ r'.2.world.console.shown
  output : ∃ rest, r'.2.world.console.output = r.2.world.console.output ++ rest
  outcome : (∃ pos, r.1 = .cancelled pos) ∨ r.1 = r'.1

theorem Heeds.cutShort (hp : p.Heeds) (settings : Settings) (n rounds : Nat) {w : World}
    (hw : w.cancelled = false) :
    CutShort n (p.run settings (some { cancelAfter := some n }) rounds w)
        (p.run settings (some {}) rounds w) ∧
      (p.run settings (some {}) rounds w).2.world.cancelled = false := by
  have hbegin : (signs w).InStep n (signs w) := ⟨rfl, rfl, hw, rfl, Nat.zero_le _⟩
  have hpair : ∀ globals, Env.Parallel (Run.Chased n)
      ⟨p, settings, some { cancelAfter := some n }, globals, rounds⟩
      ⟨p, settings, some {}, globals, rounds⟩ := fun globals => Env.chased hp n rfl rfl
  have hbehind : ∀ {r r' : Outcome × Machine}, r.2.signs.Behind n r'.2.signs →
      ((∃ pos, r.1 = .cancelled pos) ∨ r.1 = r'.1) → CutShort n r r' ∧ r'.2.world.cancelled = false :=
    fun h ho => ⟨⟨h.limit, h.reports, h.shown, Console.output_of_suffix h.shown, ho⟩, h.going⟩
  rcases run_beside hbegin rfl hpair with ⟨houtcome, hlevel⟩ | ⟨pos, hcut, h⟩
  · exact hbehind hlevel.signs.behind (.inr houtcome)
  · exact hbehind h (.inl ⟨pos, hcut⟩)

theorem Heeds.marked (hp : p.Heeds) {settings : Settings} {l : Option Listener} {rounds : Nat}
    {w : World} {pos : Option Position} (h : (p.run settings l rounds w).1 = .cancelled pos) :
    (p.run settings l rounds w).2.world.cancelled = true := by
  unfold run at h ⊢
  generalize p.globalFrames (p.units.map (·.scope) ++ [p.main]) w = g at h ⊢
  obtain ⟨globals, world⟩ := g
  let env : Env := ⟨p, settings, l, globals, rounds⟩
  have hparallel : env.Parallel (fun x _ => Run.Marked x) env := Env.marked hp
  have hmarked := hparallel.stages Run.Marked.congruence
    (hparallel.callWithin Run.Marked.congruence rfl _)
  dsimp only [env] at h hmarked ⊢
  cases hr : p.stages.forM (m := Run) (Env.execTop ⟨p, settings, l, globals, rounds⟩) { world } with
  | ok a m => rw [hr] at h; cases h
  | error e m =>
    rw [hr] at h
    obtain rfl := Outcome.ofStop_eq_cancelled h
    exact (congrArg Signs.cancelled m.signs_releaseAll).trans (hmarked _ m pos hr)

/-- A run that is cancelled from the beginning stops before its first statement. It tells no line, and
it writes neither to the screen nor to a file unless there were files open before. -/
structure Unbegun (w : World) (r : Outcome × Machine) : Prop where
  outcome : ∃ pos, r.1 = .cancelled pos
  reports : r.2.reports = []
  shown : r.2.world.console.shown = w.console.shown
  disk : (∀ f ∈ w.files, f.state = .closed) → r.2.world.disk = w.disk

theorem run_unbegun (p : Program) (settings : Settings) (l : Option Listener) (rounds : Nat)
    {w : World} (hw : w.cancelled = true) : Unbegun w (p.run settings l rounds w) := by
  have hidle : (∀ f ∈ w.files, f.state = .closed) →
      (p.globalFrames (p.units.map (·.scope) ++ [p.main]) w).2.Idle w.disk :=
    fun hfiles => World.Idle.globalFrames ⟨rfl, hfiles⟩
  have hbegin := (p.globalFrames_inert (p.units.map (·.scope) ++ [p.main])).keeps w
  obtain ⟨s, ss, hstages⟩ : ∃ s ss, p.stages = s :: ss := List.exists_cons_of_ne_nil (by simp [stages])
  unfold run
  generalize p.globalFrames (p.units.map (·.scope) ++ [p.main]) w = g at hbegin hidle ⊢
  obtain ⟨globals, world⟩ := g
  have hflag : world.cancelled = true := hbegin.2.trans hw
  have hstopped : p.stages.forM (m := Run) (Env.execTop ⟨p, settings, l, globals, rounds⟩) { world } =
      .error (.fault .cancelled (some s.pos)) { world } := by
    obtain ⟨x, hx⟩ := s.exec_eq_statement ⟨p, settings, l, globals, rounds⟩
      (Env.callWithin ⟨p, settings, l, globals, rounds⟩ settings.maxCallDepth) []
    have hexec : (Env.execTop ⟨p, settings, l, globals, rounds⟩ s) { world } =
        .error (.fault .cancelled (some s.pos)) { world } := by
      simp [Env.execTop, hx, Run.statement, Bind.bind, EStateM.bind, Run.located, Run.checkCancelled,
        hflag]
    rw [hstages]
    simp only [List.forM, Bind.bind, EStateM.bind, hexec]
  dsimp only
  rw [hstopped]
  have hsigns := Machine.signs_releaseAll { world }
  exact ⟨⟨_, rfl⟩, congrArg Signs.reports hsigns, (congrArg Signs.shown hsigns).trans hbegin.1,
    fun hfiles => (Machine.idle_releaseAll (m := { world }) (hidle hfiles)).disk⟩

end Program

namespace Toolchain

/-- Cancelling a run cuts it short and does nothing else. A run that its listener cancels with the line
after the first `n` shows the beginning of what the same run shows whose listener does not, and it ends as
cancelled or like that one. No run ends as cancelled whose flag is not set in the end, and the flag is
set by listeners alone. A run that has been cancelled before does not begin. -/
theorem compile_cutShort {t : Toolchain} {unit source : String} {p : Program}
    (h : t.compile unit source = .ok p) (hl : ∀ l ∈ t.libraries, ∀ r ∈ l.routines, r.Heeds) :
    (∀ settings n rounds (w : World), w.cancelled = false →
      Program.CutShort n (p.run settings (some { cancelAfter := some n }) rounds w)
        (p.run settings (some {}) rounds w)) ∧
    (∀ settings l rounds w, (p.run settings l rounds w).2.world.cancelled = false →
      ∀ pos, (p.run settings l rounds w).1 ≠ .cancelled pos) ∧
    (∀ settings (l : Option Listener) rounds (w : World), w.cancelled = false →
      (∀ x, l = some x → x.cancelAfter = none) →
      (p.run settings l rounds w).2.world.cancelled = false) ∧
    ∀ settings l rounds (w : World), w.cancelled = true →
      Program.Unbegun w (p.run settings l rounds w) := by
  have hp := compile_heeds h hl
  refine ⟨fun settings n rounds w hw => (hp.cutShort settings n rounds hw).1, ?unset, ?patient,
    fun settings l rounds w hw => p.run_unbegun settings l rounds hw⟩
  case unset =>
    intro settings l rounds w hflag pos hpos
    rw [hp.marked hpos] at hflag
    cases hflag
  case patient =>
    intro settings l rounds w hw hpatient
    have hgoing := (hp.cutShort settings 0 rounds hw).2
    cases l with
    | none => rwa [(p.run_patient settings rounds w).2] at hgoing
    | some x =>
      obtain rfl : x = {} := by
        have hnone := hpatient x rfl
        cases x
        exact congrArg Listener.mk hnone
      exact hgoing

/-- A loop without end is cut short by its listener. -/
theorem compile_cutShort_loop : ∃ p : Program,
    standard.compile "test" "begin while true do write(1) end." = .ok p ∧
    Program.CutShort 3
      (p.run {} (some { cancelAfter := some 3 }) 100 { console := .ofInput "" })
      (p.run {} (some {}) 100 { console := .ofInput "" }) ∧
    Program.Unbegun { console := .ofInput "", cancelled := true }
      (p.run {} none 100 { console := .ofInput "", cancelled := true }) := by
  obtain ⟨p, hp⟩ := exists_of_isOk (show (standard.compile "test"
    "begin while true do write(1) end.").isOk = true by decide +kernel)
  obtain ⟨hcut, -, -, hunbegun⟩ := compile_cutShort hp Library.standard_heeds
  exact ⟨p, hp, hcut {} 3 100 _ rfl, hunbegun {} none 100 _ rfl⟩

end Toolchain

end Pascal
