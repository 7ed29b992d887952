import Pascal.Proofs.Library.Standard
import Pascal.Proofs.Program.Session

/-!
# The library routines of a program

A program calls routines of the libraries that it was compiled with, and no others.
-/

namespace Pascal

variable {ranges : Bool} {libraries : List Library}

namespace Arena

theorem Declares.knows {a a' : Arena} (h : Declares ranges a a') (hn : a.Nested) : a.Knows a' := by
  cases h with
  | vars hscope _ _ h =>
    rw [declareVariables_eq] at h
    exact (declareEach_eq_ok hscope h).knows
  | constant _ _ _ h => exact .declare h
  | type _ _ h => exact .declare h
  | header hscope _ _ h h' => exact (declaresHeader hn hscope h h').knows
  | body => exact ⟨rfl, rfl⟩

/-- The library routines that a program knows are those of its libraries. -/
theorem Leads.native_mem {a : Arena} (h : Arena.Leads ranges libraries {} a) {id : Nat} {r : Routine}
    (hr : a.natives[id]? = some r) : ∃ l ∈ libraries, r ∈ l.routines := by
  induction h with
  | refl => simp at hr
  | tail h₁ h ih =>
    cases h with
    | scope => exact ih hr
    | importLibrary => exact ih hr
    | importUnit => exact ih hr
    | declares h => exact ih ((h.knows (Leads.nested h₁ .empty)).natives ▸ hr)
    | library l hl =>
      rw [(addsLibrary l).natives, Array.getElem?_append] at hr
      split at hr
      · exact ih hr
      · exact ⟨l, hl, by simpa using Array.mem_of_getElem? hr⟩

end Arena

/-- The library routines of a program heed a cancellation. -/
def Program.Heeds (p : Program) : Prop :=
  ∀ (id : Nat) r, p.arena.natives[id]? = some r → r.Heeds

namespace Toolchain

variable {t : Toolchain} {unit source : String} {p : Program}

theorem compile_native_mem (h : t.compile unit source = .ok p) {id : Nat} {r : Routine}
    (hr : p.arena.natives[id]? = some r) : ∃ l ∈ t.libraries, r ∈ l.routines := by
  obtain ⟨q, hq, rfl⟩ := compile_eq_ok h
  have hsame : (if t.folds then q.fold else q).arena.natives = q.arena.natives := by
    split <;> rfl
  have hbuild : q.Elaborated true t.libraries := compilePlain_elaborated hq (by simp)
  exact hbuild.arena.native_mem (hsame ▸ hr)

theorem compile_heeds (h : t.compile unit source = .ok p)
    (hl : ∀ l ∈ t.libraries, ∀ r ∈ l.routines, r.Heeds) : p.Heeds := by
  intro id r hr
  obtain ⟨l, hmem, hr⟩ := compile_native_mem h hr
  exact hl l hmem r hr

end Toolchain

end Pascal
