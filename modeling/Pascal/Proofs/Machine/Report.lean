import Pascal.Proofs.Run.Inert

/-!
# What a listener is told with a line

Announcing a line adds reports, and the listener may cancel the run. Nothing else changes.
-/

namespace Pascal

/-- The line that a report tells. -/
def Report.line? : Report → Option Position
  | .line pos => some pos
  | .message _ => none

/-- Whether a listener cancels a run when it is told so many lines. -/
def Listener.cancelsAt (l : Listener) (count : Nat) : Bool :=
  match l.cancelAfter with
  | some n => n < count
  | none => false

/-- The lines that were told, the latest first. -/
def Signs.lines (s : Signs) : List Position := s.reports.filterMap Report.line?

/-- The lines that the listener has been told, the latest first. -/
def Machine.lines (m : Machine) : List Position := m.signs.lines

namespace World

theorem describeFrame_withSigns (w : World) (s : Signs) (f : Frame) (vs : List Variable) :
    (w.withSigns s).describeFrame f vs = w.describeFrame f vs := by
  induction vs with
  | nil => rfl
  | cons v vs ih =>
    rw [describeFrame, describeFrame, ih]
    rfl

theorem describeFrames_withSigns (w : World) (s : Signs) (arena : Arena) (fs : List Frame) :
    (w.withSigns s).describeFrames arena fs = w.describeFrames arena fs := by
  induction fs with
  | nil => rfl
  | cons f fs ih => rw [describeFrames, describeFrames, ih, describeFrame_withSigns]

end World

namespace Env

variable {env : Env}

/-- What a listener is told with a line, the latest first. -/
def told (env : Env) (chain : Chain) (pos : Position) (w : World) : List Report :=
  match if env.settings.debugSnapshots then env.snapshot chain w else .error .cancelled with
  | .ok text => [.message text, .line pos]
  | .error _ => [.line pos]

/-- What a listener is told does not depend on what was shown before. -/
theorem told_withSigns (chain : Chain) (pos : Position) (w : World) (s : Signs) :
    env.told chain pos (w.withSigns s) = env.told chain pos w := by
  rw [told, told, snapshot, snapshot, World.describeFrames_withSigns]

/-- A listener is told one line at a time. -/
theorem lines_told (chain : Chain) (pos : Position) (w : World) :
    (env.told chain pos w).filterMap Report.line? = [pos] := by
  unfold told
  split <;> rfl

end Env

namespace Machine

variable (m : Machine) (env : Env) (chain : Chain) (pos : Position)

theorem announce_unheard (h : env.listener = none) : m.announce env chain pos = m := by
  rw [announce, h]

/-- What a listener is told with a line, and whether it cancels the run there. -/
theorem announce_heard {l : Listener} (h : env.listener = some l) :
    m.announce env chain pos = m.withSigns
      ⟨env.told chain pos m.world ++ m.reports, m.linesReported + 1, m.world.console.shown,
        m.world.cancelled || l.cancelsAt (m.linesReported + 1)⟩ := by
  rw [announce, h, Env.told]
  dsimp only
  generalize (if env.settings.debugSnapshots then env.snapshot chain m.world
    else .error .cancelled) = text
  cases text <;> rfl

/-- Announcing a line gives signs and does nothing else. -/
theorem announce_same : m.announce env chain pos = m.withSigns (m.announce env chain pos).signs := by
  cases h : env.listener with
  | none => rw [announce_unheard m env chain pos h, withSigns_signs]
  | some l => rw [announce_heard m env chain pos h, signs_withSigns]

end Machine

end Pascal
