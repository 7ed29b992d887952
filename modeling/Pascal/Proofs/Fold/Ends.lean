import Pascal.Program

/-!
# Where folding breaks off

Folding gives a tree unless the host breaks it off at some node. That is so for each tree on its own, so
that lists of trees end where all their members do.
-/

namespace Pascal

theorem all_congr_mem {α : Type} {p q : α → Bool} {xs : List α} (h : ∀ x ∈ xs, p x = q x) :
    xs.all p = xs.all q := by
  induction xs with
  | nil => rfl
  | cons x xs ih =>
    obtain ⟨hx, hxs⟩ := List.forall_mem_cons.mp h
    rw [List.all_cons, List.all_cons, hx, ih hxs]

theorem foldExprsEnds_eq (es : List Expr) : foldExprsEnds es = es.all Expr.foldEnds := by
  induction es with
  | nil => rfl
  | cons e es ih => rw [foldExprsEnds, ih, List.all_cons]

theorem foldArgsEnds_eq (as : List Arg) : foldArgsEnds as = as.all Arg.foldEnds := by
  induction as with
  | nil => rfl
  | cons a as ih => rw [foldArgsEnds, ih, List.all_cons]

theorem foldStmtsEnds_eq (ss : List Stmt) : foldStmtsEnds ss = ss.all Stmt.foldEnds := by
  induction ss with
  | nil => rfl
  | cons s ss ih => rw [foldStmtsEnds, ih, List.all_cons]

theorem foldArmsEnds_eq (as : List Arm) : foldArmsEnds as = as.all Arm.foldEnds := by
  induction as with
  | nil => rfl
  | cons a as ih => rw [foldArmsEnds, ih, List.all_cons]

theorem Expr.fold?_eq_some {e e' : Expr} : e.fold? = some e' ↔ e.foldEnds ∧ e.fold = e' := by
  simp [fold?]

theorem Stmt.fold?_eq_some {s s' : Stmt} : s.fold? = some s' ↔ s.foldEnds ∧ s.fold = s' := by
  simp [fold?]

theorem Program.fold?_eq_some {p p' : Program} : p.fold? = some p' ↔ p.foldEnds ∧ p.fold = p' := by
  simp [fold?]

end Pascal
