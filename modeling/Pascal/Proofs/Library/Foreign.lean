import Pascal.World
import Pascal.Proofs.Machine.Faults

/-! # What the console and files can fail of -/

namespace Pascal

/-- A computation that finds only faults that come from outside. -/
abbrev Foreign {α : Type} (r : Except Fault α) : Prop := Fails (fun f => f.isForeign = true) r

namespace Reader

/-- Reading finds only faults that come from outside. -/
def Foreign {α : Type} (read : Read α) : Prop := ∀ r r' f, read r = .error f r' → f.isForeign

variable {α : Type}

theorem foreign_pure (a : α) : Foreign (pure a) := fun _ _ _ h => by cases h

theorem foreign_nextLine : Foreign nextLine := by
  intro r r' f h
  unfold nextLine at h
  split at h <;> cases h
  rfl

theorem foreign_demandLine : Foreign demandLine := by
  intro r r' f h
  unfold demandLine at h
  split at h
  · cases h
  · cases h
    rfl
  · next hline =>
    cases h
    exact foreign_nextLine _ _ _ hline

theorem foreign_current : Foreign current := by
  intro r r' f h
  unfold current at h
  split at h
  · cases h
  · split at h
    · cases h
    · next hline =>
      cases h
      exact foreign_demandLine _ _ _ hline

theorem foreign_word : Foreign word := by
  have hfrom : ∀ refusal line lines r f, wordFrom refusal line lines = .error f r →
      f.isForeign := by
    intro refusal line lines
    fun_induction wordFrom refusal line lines with
    | case4 _ _ _ _ ih => exact ih
    | _ => intro r f h; cases h <;> rfl
  intro r r' f h
  unfold word at h
  split at h
  · exact hfrom _ _ _ _ _ h
  · next hline =>
    cases h
    exact foreign_current _ _ _ hline

theorem foreign_char : Foreign char := by
  intro r r' f h
  unfold char at h
  split at h
  · cases h
  · cases h
  · next hline =>
    cases h
    exact foreign_current _ _ _ hline

theorem foreign_rest : Foreign rest := by
  intro r r' f h
  unfold rest at h
  split at h
  · cases h
  · next hline =>
    cases h
    exact foreign_current _ _ _ hline

theorem foreign_finishLine : Foreign finishLine := by
  intro r r' f h
  unfold finishLine at h
  split at h
  · cases h
  · split at h
    · cases h
    · next hline =>
      cases h
      exact foreign_demandLine _ _ _ hline

theorem foreign_atEnd : Foreign atEnd := by
  intro r r' f h
  unfold atEnd at h
  split at h
  · cases h
  · split at h
    · cases h
    · cases h
    · next hline =>
      cases h
      exact foreign_nextLine _ _ _ hline

end Reader

namespace TextFile

theorem isForeign_notOpen (f : TextFile) : f.notOpen.isForeign := rfl

theorem foreign_orIo {α : Type} (r : Except DiskError α) : Foreign (orIo r) := by
  cases r with
  | ok a => exact .ok a
  | error e => exact Fails.error_iff.mpr rfl

theorem foreign_bound (f : TextFile) : Foreign f.bound := by
  unfold bound
  split
  · exact .ok _
  · exact Fails.error_iff.mpr rfl

theorem foreign_startOver (f : TextFile) (d : Disk) : Foreign (f.startOver d) :=
  f.foreign_bound.bind fun _ => (foreign_orIo _).bind fun _ => .ok _

theorem foreign_append (f : TextFile) (d : Disk) : Foreign (f.append d) :=
  f.foreign_bound.bind fun _ => (foreign_orIo _).bind fun _ => .ok _

theorem foreign_reset (f : TextFile) (d : Disk) : Foreign (f.reset d) := by
  refine f.foreign_bound.bind fun name => ?_
  split
  · exact .ok _
  all_goals exact Fails.error_iff.mpr rfl

theorem foreign_close (f : TextFile) (d : Disk) : Foreign (f.close d) := by
  unfold close
  split <;> simp only [Fails.ok, Fails.error_iff, isForeign_notOpen]

theorem foreign_write (f : TextFile) (text : String) (d : Disk) : Foreign (f.write text d) := by
  unfold write
  split <;> simp only [Fails.ok, Fails.error_iff, isForeign_notOpen]

end TextFile

end Pascal
