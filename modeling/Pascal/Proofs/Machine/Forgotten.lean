import Pascal.Machine.Exec

/-!
# Letting forgotten files go

Letting forgotten files go changes neither what is stored nor what is still in use, so that doing it
once more changes nothing.
-/

namespace Pascal.Machine

variable {m : Machine} {env : Env}

/-- What letting files go does not change. -/
structure Keeps (m m' : Machine) : Prop where
  store : m'.world.store = m.world.store
  console : m'.world.console = m.world.console
  cancelled : m'.world.cancelled = m.world.cancelled
  active : m'.active = m.active
  held : m'.held = m.held
  reports : m'.reports = m.reports

theorem Keeps.refl (m : Machine) : m.Keeps m := ⟨rfl, rfl, rfl, rfl, rfl, rfl⟩

theorem Keeps.trans {m' m'' : Machine} (h : m.Keeps m') (h' : m'.Keeps m'') : m.Keeps m'' :=
  ⟨h'.store.trans h.store, h'.console.trans h.console, h'.cancelled.trans h.cancelled,
    h'.active.trans h.active, h'.held.trans h.held, h'.reports.trans h.reports⟩

theorem keeps_letGo (m : Machine) (n : Nat) : m.Keeps (m.letGo n) := ⟨rfl, rfl, rfl, rfl, rfl, rfl⟩

theorem keeps_foldl_letGo (ns : List Nat) (m : Machine) : m.Keeps (ns.foldl letGo m) := by
  induction ns generalizing m with
  | nil => exact .refl m
  | cons n ns ih => exact (keeps_letGo m n).trans (ih (m.letGo n))

theorem keeps_releaseForgotten (env : Env) (m : Machine) : m.Keeps (m.releaseForgotten env) := by
  unfold releaseForgotten
  split
  · dsimp only
    split
    · exact .refl m
    · exact keeps_foldl_letGo _ m
  · exact .refl m

theorem Keeps.filesInUse {m' : Machine} (h : m.Keeps m') (env : Env) :
    m'.filesInUse env = m.filesInUse env := by
  simp only [Machine.filesInUse, roots, slots, h.store, h.active, h.held]

private theorem mem_dirtyFiles_letGo {n k : Nat} :
    n ∈ (m.letGo k).dirtyFiles ↔ n ∈ m.dirtyFiles ∧ n ≠ k := by
  have hsize : (m.letGo k).world.files.size = m.world.files.size := by
    simp [letGo, World.setFile]
  simp only [dirtyFiles, List.mem_filter, List.mem_range, hsize]
  by_cases hk : n = k
  · subst hk
    by_cases hn : n < m.world.files.size
    · simp [letGo, World.setFile, World.file, hn, TextFile.isDirty]
    · simp [hn]
  · have hfile : (m.letGo k).world.file n = m.world.file n := by
      simp [letGo, World.setFile, World.file, Ne.symm hk]
    simp [hfile, hk]

private theorem mem_dirtyFiles_foldl {ns : List Nat} {n : Nat} :
    n ∈ (ns.foldl letGo m).dirtyFiles ↔ n ∈ m.dirtyFiles ∧ n ∉ ns := by
  induction ns generalizing m with
  | nil => simp
  | cons k ns ih =>
    rw [List.foldl_cons, ih, mem_dirtyFiles_letGo]
    simp only [List.mem_cons, not_or, and_assoc]

/-- Where all files that have something to deliver are in use, none is let go. -/
theorem releaseForgotten_eq_self (h : ∀ n ∈ m.dirtyFiles, n ∈ m.filesInUse env) :
    m.releaseForgotten env = m := by
  have hnone : m.dirtyFiles.filter (fun n => !(m.filesInUse env).contains n) = [] := by
    simpa using h
  unfold releaseForgotten
  simp only [hnone, List.foldl_nil, ite_self]

/-- Once forgotten files have been let go, none is left. -/
theorem releaseForgotten_idem (env : Env) (m : Machine) :
    (m.releaseForgotten env).releaseForgotten env = m.releaseForgotten env := by
  by_cases hany : m.world.files.any TextFile.isDirty
  · by_cases hsight : m.dirtyFiles.all (m.filesInSight env).contains
    · have hself : m.releaseForgotten env = m := by simp [releaseForgotten, hany, hsight]
      rw [hself, hself]
    · have hgo : m.releaseForgotten env =
          (m.dirtyFiles.filter fun n => !(m.filesInUse env).contains n).foldl letGo m := by
        simp [releaseForgotten, hany, hsight]
      rw [hgo]
      refine releaseForgotten_eq_self fun n hn => ?_
      rw [(keeps_foldl_letGo _ m).filesInUse]
      obtain ⟨hdirty, hnot⟩ := mem_dirtyFiles_foldl.mp hn
      simpa [hdirty] using hnot
  · have hself : m.releaseForgotten env = m := by simp [releaseForgotten, hany]
    rw [hself, hself]

end Pascal.Machine
