import Pascal.Proofs.Machine.Report
import Pascal.Proofs.Run.Beside

/-!
# Looking on

A listener that does not cancel a run changes nothing but what it is told itself; whether it is told the
variables changes nothing but that.
-/

namespace Pascal

namespace Signs

/-- The screens and the flags are the same; so are the lines that were told if that is asked for. -/
structure Alike (lines : Bool) (s t : Signs) : Prop where
  shown : s.shown = t.shown
  cancelled : s.cancelled = t.cancelled
  lines : lines → s.lines = t.lines ∧ s.linesReported = t.linesReported

theorem Alike.refl (b : Bool) (s : Signs) : s.Alike b s := ⟨rfl, rfl, fun _ => ⟨rfl, rfl⟩⟩

end Signs

variable {b : Bool}

theorem Machine.Level.world {m₁ m₂ : Machine} (h : m₁.Level (Signs.Alike b) m₂) :
    m₁.world = m₂.world := by
  have hshown := h.signs.shown
  have hcancelled := h.signs.cancelled
  rw [h.same]
  change m₂.world.withSigns m₁.signs = m₂.world
  rw [World.withSigns, hshown, hcancelled]
  rfl

namespace Run

/-- Two runs that show the same, neither of which is cut. -/
abbrev Twins (b : Bool) {α : Type} (x y : Run α) : Prop :=
  Pair (Signs.Alike b) (fun _ _ => False) x y

namespace Twins

theorem of_beside {α : Type} {x y : Run α} (h : ∀ m₁ m₂, Machine.Level (Signs.Alike b) m₁ m₂ →
    Beside (Signs.Alike b) (fun _ _ => False) (x m₁) (y m₂)) : Twins b x y :=
  ⟨h, fun _ _ hfalse => hfalse.elim⟩

theorem ofHost {α : Type} (name : String) (x : Host α) :
    Twins b (Run.ofHost name x) (Run.ofHost name x) := by
  refine .of_beside fun m₁ m₂ h => ?_
  have hlevel : ∀ w, Machine.Level (Signs.Alike b) { m₁ with world := w } { m₂ with world := w } := by
    intro w
    refine ⟨?_, rfl, rfl, h.signs.lines⟩
    rw [h.same]
    rfl
  unfold Run.ofHost
  rw [h.world]
  split
  · exact .ok _ (hlevel _)
  · exact .error _ (hlevel _)
  · exact .error _ (hlevel _)

theorem checkCancelled : Twins b Run.checkCancelled Run.checkCancelled := by
  refine .of_beside fun m₁ m₂ h => ?_
  unfold Run.checkCancelled
  rw [h.world]
  split
  · exact .error _ h
  · exact .ok () h

end Twins

end Run

namespace Env

variable {env env' : Env}

/-- Announcing a line to two listeners leaves the signs alike. -/
def AnnounceAlike (b : Bool) (env env' : Env) : Prop :=
  ∀ (m₁ m₂ : Machine), m₁.Level (Signs.Alike b) m₂ → ∀ chain pos,
    (m₁.announce env chain pos).signs.Alike b (m₂.announce env' chain pos).signs

/-- The same listener is told the same lines, whether it is told the variables or not. -/
theorem AnnounceAlike.same (h : env.listener = env'.listener) : AnnounceAlike true env env' := by
  intro m₁ m₂ hm chain pos
  cases hl : env.listener with
  | none =>
    rw [m₁.announce_unheard env chain pos hl, m₂.announce_unheard env' chain pos (h ▸ hl)]
    exact hm.signs
  | some l =>
    obtain ⟨hlines, hcount⟩ := hm.signs.lines rfl
    rw [m₁.announce_heard env chain pos hl, m₂.announce_heard env' chain pos (h ▸ hl), hm.world,
      show m₁.linesReported = m₂.linesReported from hcount, Machine.signs_withSigns,
      Machine.signs_withSigns]
    have hlines : m₁.reports.filterMap Report.line? = m₂.reports.filterMap Report.line? := hlines
    refine ⟨rfl, rfl, fun _ => ⟨?_, rfl⟩⟩
    simp only [Signs.lines, List.filterMap_append, Env.lines_told, hlines]

/-- A listener that does not cancel the run leaves the world as it is. -/
theorem world_announce (hl : ∀ l, env.listener = some l → l.cancelAfter = none) (m : Machine)
    (chain : Chain) (pos : Position) : (m.announce env chain pos).world = m.world := by
  cases h : env.listener with
  | none => rw [m.announce_unheard env chain pos h]
  | some l =>
    rw [m.announce_heard env chain pos h, Listener.cancelsAt, hl l h, Bool.or_false]
    rfl

/-- Listeners that do not cancel the run leave the signs alike but for what they are told. -/
theorem AnnounceAlike.of_patient (hl : ∀ l, env.listener = some l → l.cancelAfter = none)
    (hl' : ∀ l, env'.listener = some l → l.cancelAfter = none) : AnnounceAlike false env env' := by
  intro m₁ m₂ hm chain pos
  have hworld : (m₁.announce env chain pos).world = (m₂.announce env' chain pos).world := by
    rw [world_announce hl, world_announce hl', hm.world]
  exact ⟨congrArg (·.console.shown) hworld, congrArg (·.cancelled) hworld, by simp⟩

/-- Code does in one environment what it does in another one with the same global variables and the same
library routines, where announcing a line leaves the signs alike. -/
theorem AnnounceAlike.abreast (h : AnnounceAlike b env env') (hglobals : env'.globals = env.globals)
    (hrounds : env'.rounds = env.rounds)
    (hnatives : ∀ id : Nat, env'.program.arena.natives[id]?.map (fun r => (r.name, r.run)) =
      env.program.arena.natives[id]?.map (fun r => (r.name, r.run))) :
    env.Abreast (Run.Twins b) env' := by
  have hcheck : Run.Twins b Run.checkCancelled Run.checkCancelled := Run.Twins.checkCancelled
  refine ⟨⟨hglobals, fun caller caller' chain id args => ?_⟩, hrounds, hcheck, fun chain s => ?_⟩
  · have hnative := hnatives id
    unfold call
    dsimp only
    cases hr : env.program.arena.natives[id]? with
    | none =>
      rw [hr] at hnative
      rw [Option.map_eq_none_iff.mp hnative]
      exact Run.Pair.congruence.inert (.fail (by simp))
    | some r =>
      rw [hr] at hnative
      obtain ⟨r', hr', hsame⟩ := Option.map_eq_some_iff.mp hnative
      obtain ⟨hname, hrun⟩ := Prod.mk.inj hsame
      rw [hr']
      dsimp only
      rw [hname, hrun]
      exact .ofHost _ _
  · refine Run.Pair.congruence.bind (Run.Pair.congruence.located s.pos hcheck) fun _ => ?_
    refine Run.Twins.of_beside fun m₁ m₂ hm => .ok () ?_
    split
    · exact hm
    · rw [m₁.announce_same, m₂.announce_same]
      exact hm.withSigns (h m₁ m₂ hm chain s.pos)

end Env

namespace Program

variable {p : Program} {settings settings' : Settings} {l l' : Option Listener}

/-- Two runs of a program with listeners that leave the signs alike end in the same way, and on the
same world. -/
theorem run_alike (hdepth : settings'.maxCallDepth = settings.maxCallDepth)
    (h : ∀ globals n, Env.AnnounceAlike b ⟨p, settings, l, globals, n⟩ ⟨p, settings', l', globals, n⟩)
    (n : Nat) (w : World) :
    (p.run settings l n w).1 = (p.run settings' l' n w).1 ∧
      (p.run settings l n w).2.Level (Signs.Alike b) (p.run settings' l' n w).2 := by
  have hpair : ∀ globals, Env.Parallel (Run.Twins b) ⟨p, settings, l, globals, n⟩
      ⟨p, settings', l', globals, n⟩ :=
    fun globals => ⟨(h globals n).abreast rfl rfl fun _ => rfl, rfl⟩
  rcases run_beside (.refl b _) hdepth hpair with hsame | ⟨pos, -, hfalse⟩
  · exact hsame
  · exact hfalse.elim

/-- A listener that does not cancel a run changes neither how it ends nor the world. -/
theorem run_patient (p : Program) (settings : Settings) (n : Nat) (w : World) :
    (p.run settings (some {}) n w).1 = (p.run settings none n w).1 ∧
      (p.run settings (some {}) n w).2.world = (p.run settings none n w).2.world := by
  have halike : ∀ globals n, Env.AnnounceAlike false ⟨p, settings, some {}, globals, n⟩
      ⟨p, settings, none, globals, n⟩ := fun globals n =>
    .of_patient (fun l hl => by cases hl; rfl) fun l hl => by cases hl
  obtain ⟨houtcome, hlevel⟩ := run_alike (by rfl) halike n w
  exact ⟨houtcome, hlevel.world⟩

/-- Looking on does not interfere with a run. With a listener that never cancels it, a run ends in the
same way as without one and on the same world: with the same screen, files and storage. Whether a
listener is told the variables changes nothing of that, and it is told the same lines. -/
theorem run_observed (p : Program) (settings : Settings) (n : Nat) (w : World) :
    ((p.run settings (some {}) n w).1 = (p.run settings none n w).1 ∧
      (p.run settings (some {}) n w).2.world = (p.run settings none n w).2.world) ∧
    ∀ (l : Option Listener) (snapshots : Bool),
      (p.run { settings with debugSnapshots := snapshots } l n w).1 = (p.run settings l n w).1 ∧
      (p.run { settings with debugSnapshots := snapshots } l n w).2.world =
        (p.run settings l n w).2.world ∧
      (p.run { settings with debugSnapshots := snapshots } l n w).2.lines =
        (p.run settings l n w).2.lines := by
  refine ⟨p.run_patient settings n w, fun l snapshots => ?_⟩
  have halike : ∀ globals n, Env.AnnounceAlike true
      ⟨p, { settings with debugSnapshots := snapshots }, l, globals, n⟩ ⟨p, settings, l, globals, n⟩ :=
    fun globals n => .same rfl
  obtain ⟨houtcome, hlevel⟩ := run_alike (by rfl) halike n w
  exact ⟨houtcome, hlevel.world, (hlevel.signs.lines rfl).1⟩

end Program

end Pascal
