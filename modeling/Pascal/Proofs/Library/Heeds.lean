import Pascal.Library.Standard
import Pascal.Proofs.Library.Foreign
import Pascal.Proofs.Machine.Outcomes

/-!
# How library routines heed a cancellation

A library routine neither cancels a run nor takes anything back from the screen. In a run that has been
cancelled it does the same as before, or it stops there as cancelled.
-/

namespace Pascal

namespace World

/-- The world of a run that has been cancelled, or has not. -/
def withCancelled (w : World) (c : Bool) : World := { w with cancelled := c }

end World

namespace Host

variable {α β : Type}

/-- The world that a routine leaves behind. -/
def after : EStateM.Result Refusal World α → World
  | .ok _ w | .error _ w => w

/-- A result with the run cancelled. -/
def cancelled : EStateM.Result Refusal World α → EStateM.Result Refusal World α
  | .ok a w => .ok a (w.withCancelled true)
  | .error e w => .error e (w.withCancelled true)

/-- The result of a routine in a cancelled run, next to what it is otherwise: it is the same, or the
routine has stopped before with no more on the screen. -/
inductive Cut : EStateM.Result Refusal World α → EStateM.Result Refusal World α → Prop where
  | same (r : EStateM.Result Refusal World α) : Cut (cancelled r) r
  | stopped {w : World} {r : EStateM.Result Refusal World α} (hw : w.cancelled = true)
      (h : w.console.shown <:+ (after r).console.shown) : Cut (.error (.fault .cancelled) w) r

/-- A routine leaves a run as it is, adds to what was shown, and stops as cancelled only where the run
has been cancelled. It finds no other fault that only a run itself finds. -/
structure Heeds (x : Host α) : Prop where
  quiet : ∀ w : World, w.cancelled = false → (after (x w)).cancelled = false
  grows : ∀ w : World, w.cancelled = false → w.console.shown <:+ (after (x w)).console.shown
  heedless : ∀ (w w' : World) f, w.cancelled = false → x w = .error (.fault f) w' → f.isOwn = false
  cut : ∀ w : World, w.cancelled = false → Cut (x (w.withCancelled true)) (x w)

namespace Heeds

variable {x : Host α} {f : α → Host β}

theorem bind (hx : x.Heeds) (hf : ∀ a, (f a).Heeds) : (x >>= f).Heeds := by
  have hok : ∀ {w w₁ : World} {a : α}, w.cancelled = false → x w = .ok a w₁ →
      w₁.cancelled = false := fun hw he => by simpa only [he, after] using hx.quiet _ hw
  constructor
  case quiet =>
    intro w hw
    simp only [Bind.bind, EStateM.bind]
    cases he : x w with
    | ok a w₁ => exact (hf a).quiet w₁ (hok hw he)
    | error e w₁ => simpa only [he, after] using hx.quiet w hw
  case grows =>
    intro w hw
    have hshown := hx.grows w hw
    simp only [Bind.bind, EStateM.bind]
    cases he : x w with
    | ok a w₁ =>
      rw [he] at hshown
      exact hshown.trans ((hf a).grows w₁ (hok hw he))
    | error e w₁ =>
      rw [he] at hshown
      exact hshown
  case heedless =>
    intro w w' e hw h
    rcases EStateM.bind_eq_error_iff.mp h with he | ⟨a, w₁, he, h⟩
    · exact hx.heedless w w' e hw he
    · exact (hf a).heedless w₁ w' e (hok hw he) h
  case cut =>
    intro w hw
    have hcut := hx.cut w hw
    simp only [Bind.bind, EStateM.bind]
    cases he : x w with
    | error e w₁ =>
      rw [he] at hcut
      generalize x (w.withCancelled true) = r at hcut
      cases hcut with
      | same => exact .same (.error e w₁)
      | stopped hc h => exact .stopped hc h
    | ok a w₁ =>
      rw [he] at hcut
      generalize x (w.withCancelled true) = r at hcut
      cases hcut with
      | same => exact (hf a).cut w₁ (hok hw he)
      | stopped hc h => exact .stopped hc (h.trans ((hf a).grows w₁ (hok hw he)))

/-- A routine stops with a fault that only a run itself finds only if the run has been cancelled, and
then as cancelled. -/
theorem marked (h : x.Heeds) {w w' : World} {e : Fault} (hx : x w = .error (.fault e) w')
    (he : e.isOwn = true) : e = .cancelled ∧ w'.cancelled = true := by
  cases hw : w.cancelled with
  | false => exact absurd (h.heedless w w' e hw hx) (by simp [he])
  | true =>
    have hcut := h.cut (w.withCancelled false) rfl
    have hne := h.heedless (w.withCancelled false)
    have hself : (w.withCancelled false).withCancelled true = w := by
      rw [World.withCancelled, World.withCancelled, ← hw]
    rw [hself, hx] at hcut
    generalize hr : x (w.withCancelled false) = r at hcut hne
    generalize hr' : (EStateM.Result.error (.fault e) w' :
      EStateM.Result Refusal World α) = r' at hcut
    cases hcut with
    | same =>
      cases r with
      | ok a w₁ => cases hr'
      | error refusal w₁ =>
        injection hr' with hrefusal
        exact absurd (hne w₁ e rfl (hrefusal ▸ rfl)) (by simp [he])
    | stopped hmarked _ =>
      injection hr' with hrefusal hw'
      exact ⟨Refusal.fault.inj hrefusal, hw' ▸ hmarked⟩

/-- What does not look at whether the run has been cancelled. -/
theorem of_blind (hx : ∀ w c, x (World.withCancelled w c) = match x w with
      | .ok a w' => .ok a (w'.withCancelled c)
      | .error e w' => .error e (w'.withCancelled c))
    (hgrows : ∀ w : World, w.console.shown <:+ (after (x w)).console.shown)
    (hne : ∀ w w' f, x w = .error (.fault f) w' → f.isOwn = false) : x.Heeds where
  quiet w hw := by
    have hself := hx w false
    have hsame : w.withCancelled false = w := by rw [World.withCancelled, ← hw]
    rw [hsame] at hself
    cases he : x w with
    | ok a w' =>
      rw [he] at hself
      injection hself with _ hw'
      rw [after, hw']
      rfl
    | error e w' =>
      rw [he] at hself
      injection hself with _ hw'
      rw [after, hw']
      rfl
  grows w _ := hgrows w
  heedless w w' f _ := hne w w' f
  cut w _ := by
    rw [hx w true]
    cases x w with
    | ok a w' => exact .same (.ok a w')
    | error e w' => exact .same (.error e w')

end Heeds

/-- A routine heeds a cancellation, and it does not stop as if too many routines were active. -/
structure Behaves (x : Host α) : Prop extends Heeds x where
  shallow : ∀ (w w' : World) f, x w = .error (.fault f) w' → f.isOverflow = false

namespace Behaves

variable {x : Host α} {f : α → Host β}

theorem bind (hx : x.Behaves) (hf : ∀ a, (f a).Behaves) : (x >>= f).Behaves where
  toHeeds := hx.toHeeds.bind fun a => (hf a).toHeeds
  shallow w w' e h := by
    rcases EStateM.bind_eq_error_iff.mp h with he | ⟨a, w₁, -, h⟩
    · exact hx.shallow w w' e he
    · exact (hf a).shallow w₁ w' e h

/-- What does not look at whether the run has been cancelled. -/
theorem of_blind (hx : ∀ w c, x (World.withCancelled w c) = match x w with
      | .ok a w' => .ok a (w'.withCancelled c)
      | .error e w' => .error e (w'.withCancelled c))
    (hgrows : ∀ w : World, w.console.shown <:+ (after (x w)).console.shown)
    (hne : ∀ w w' f, x w = .error (.fault f) w' → f.isReserved = false) : x.Behaves where
  toHeeds := .of_blind hx hgrows fun w w' f h => Fault.not_isOwn (hne w w' f h)
  shallow w w' f h := Fault.not_isOverflow (hne w w' f h)

theorem pure (a : α) : Behaves (Pure.pure a : Host α) :=
  of_blind (fun _ _ => rfl) (fun _ => List.suffix_rfl) fun _ _ _ h => by cases h

theorem throw {e : Refusal} (he : ∀ f, e = .fault f → f.isReserved = false) :
    Behaves (throw e : Host α) :=
  of_blind (fun _ _ => rfl) (fun _ => List.suffix_rfl) fun _ _ f h => by
    injection h with h
    exact he f h

/-- What only reads the world. -/
theorem reads {g : World → Except Fault α} (hg : ∀ w c, g (World.withCancelled w c) = g w)
    (hne : ∀ w, Heedless (g w)) : Behaves (do Host.liftFault (g (← EStateM.get))) := by
  have hrun : ∀ w : World, (do Host.liftFault (g (← EStateM.get)) : Host α) w =
      Host.liftFault (g w) w := fun _ => rfl
  refine of_blind (fun w c => ?_) (fun w => ?_) fun w w' e h => ?_
  · rw [hrun, hrun, hg]
    cases g w <;> rfl
  · rw [hrun]
    cases g w <;> exact List.suffix_rfl
  · rw [hrun] at h
    have hw := hne w
    cases hr : g w with
    | ok a => rw [hr] at h; cases h
    | error e =>
      rw [hr] at h hw
      cases h
      exact Fails.error_iff.mp hw

theorem get (r : Ref) : Behaves (Host.get r) :=
  reads (g := fun w => w.store.get r) (fun _ _ => rfl) fun w => w.store.heedless_get r

theorem render (v : Value) : Behaves (Host.render v) :=
  reads (g := fun w => .ok (w.render v)) (fun _ _ => rfl) fun _ => .ok _

theorem update (r : Ref) {f : Value → Except Fault Value} (hf : ∀ v, Heedless (f v)) :
    Behaves (Host.update r f) := by
  refine of_blind (fun w c => ?_) (fun w => ?_) fun w w' e h => ?_
  · unfold Host.update
    dsimp only [World.withCancelled]
    cases w.store.revised r f <;> rfl
  · unfold Host.update
    cases w.store.revised r f <;> exact List.suffix_rfl
  · have hne := w.store.heedless_revised r hf
    unfold Host.update at h
    cases hr : w.store.revised r f with
    | ok v => rw [hr] at h; cases h
    | error e =>
      rw [hr] at h hne
      cases h
      exact Fails.error_iff.mp hne

theorem write (text : String) : Behaves (Host.write text) := by
  refine of_blind (fun w c => ?_) (fun w => ?_) fun w w' e h => ?_
  · unfold Host.write
    dsimp only [World.withCancelled]
    cases w.console.writeRefusal <;> rfl
  · unfold Host.write
    cases w.console.writeRefusal
    · exact List.suffix_cons _ _
    · exact List.suffix_rfl
  · unfold Host.write at h
    cases hr : w.console.writeRefusal <;> rw [hr] at h <;> cases h
    simp

theorem clearScreen : Behaves Host.clearScreen := by
  refine of_blind (fun w c => ?_) (fun w => ?_) fun w w' e h => ?_
  · unfold Host.clearScreen
    dsimp only [World.withCancelled]
    cases w.console.clearRefusal <;> rfl
  · unfold Host.clearScreen
    cases w.console.clearRefusal
    · exact List.suffix_cons _ _
    · exact List.suffix_rfl
  · unfold Host.clearScreen at h
    cases hr : w.console.clearRefusal <;> rw [hr] at h <;> cases h
    simp

theorem onConsole {read : Reader.Read α} (hread : Reader.Foreign read) :
    Behaves (Host.onConsole read) := by
  refine of_blind (fun w c => ?_) (fun w => ?_) fun w w' e h => ?_
  · unfold Host.onConsole
    dsimp only [World.withCancelled]
    cases read w.console.reader <;> rfl
  · unfold Host.onConsole
    cases read w.console.reader <;> exact List.suffix_rfl
  · unfold Host.onConsole at h
    cases hr : read w.console.reader with
    | ok a r => rw [hr] at h; cases h
    | error e r =>
      rw [hr] at h
      cases h
      exact Fault.isReserved_of_isForeign (hread _ _ _ hr)

theorem onFile (n : Nat) {change : TextFile → Disk → TextFile.Change}
    (hchange : ∀ f d, Pascal.Foreign (change f d)) : Behaves (Host.onFile n change) := by
  refine of_blind (fun w c => ?_) (fun w => ?_) fun w w' e h => ?_
  · unfold Host.onFile
    dsimp only [World.withCancelled, World.file]
    cases change (w.files[n]?.getD {}) w.disk <;> rfl
  · unfold Host.onFile
    cases change (w.file n) w.disk <;> exact List.suffix_rfl
  · have hne := hchange (w.file n) w.disk
    unfold Host.onFile at h
    cases hr : change (w.file n) w.disk with
    | ok p => rw [hr] at h; cases h
    | error e =>
      rw [hr] at h hne
      cases h
      exact Fault.isReserved_of_isForeign (Fails.error_iff.mp hne)

theorem fromFile (n : Nat) {read : Reader.Read α} (hread : Reader.Foreign read) :
    Behaves (Host.fromFile n read) := by
  refine of_blind (fun w c => ?_) (fun w => ?_) fun w w' e h => ?_
  · unfold Host.fromFile
    dsimp only [World.withCancelled, World.file]
    cases (w.files[n]?.getD {}).state with
    | reading r => dsimp only; cases read r <;> rfl
    | closed => rfl
    | writing => rfl
  · unfold Host.fromFile
    cases (w.file n).state with
    | reading r => dsimp only; cases read r <;> exact List.suffix_rfl
    | closed => exact List.suffix_rfl
    | writing => exact List.suffix_rfl
  · unfold Host.fromFile at h
    cases hs : (w.file n).state with
    | reading r =>
      rw [hs] at h
      dsimp only at h
      cases hr : read r with
      | ok a r' => rw [hr] at h; cases h
      | error e r' =>
        rw [hr] at h
        cases h
        exact Fault.isReserved_of_isForeign (hread _ _ _ hr)
    | closed | writing =>
      rw [hs] at h
      cases h
      exact Fault.isReserved_of_isForeign (TextFile.isForeign_notOpen _)

/-- Waiting stops in a cancelled run. -/
theorem checked : Behaves (do if (← EStateM.get).cancelled then Host.fail .cancelled : Host Unit) := by
  have hrun : ∀ w : World,
      (do if (← EStateM.get).cancelled then Host.fail .cancelled : Host Unit) w =
        if w.cancelled then .error (.fault .cancelled) w else .ok () w := by
    intro w
    change (if w.cancelled then Host.fail .cancelled else Pure.pure () : Host Unit) w = _
    split <;> rfl
  refine ⟨⟨?quiet, ?grows, ?heedless, ?cut⟩, ?shallow⟩
  case quiet => exact fun w hw => by rw [hrun, hw]; exact hw
  case grows => exact fun w hw => by rw [hrun, hw]; exact List.suffix_rfl
  case heedless => exact fun w w' f hw h => by rw [hrun, hw] at h; cases h
  case cut =>
    intro w hw
    rw [hrun, hrun, hw]
    exact .stopped rfl List.suffix_rfl
  case shallow =>
    intro w w' f h
    rw [hrun] at h
    split at h <;> cases h
    rfl

end Behaves

end Host

end Pascal
