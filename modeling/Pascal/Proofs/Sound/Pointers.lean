import Mathlib.Data.List.Count
import Pascal.Proofs.Sound.Program

/-!
# Pointers end

Types are finite, and what a pointer leads to is of a type with one pointer less. On a typed machine no
chain of pointers is therefore longer than the type that it begins with, no cell leads back to itself, and
the text of a value is found by following its pointers to their ends.
-/

namespace Pascal

namespace Ty

/-- How many pointers are nested in a type. -/
def pointers : Ty → Nat
  | array element _ => element.pointers
  | pointer target => target.pointers + 1
  | varargs element => element.pointers
  | basic _ | any | text | nil => 0

@[simp] theorem pointers_outline (bounds : Bool) (t : Ty) : (t.outline bounds).pointers = t.pointers := by
  induction t <;> simp_all [outline, pointers]

/-- A path passes no pointer. -/
theorem pointers_at? {t u : Ty} {path : List Step} (h : t.at? path = some u) :
    u.pointers = t.pointers := by
  induction path generalizing t with
  | nil =>
    cases h
    rfl
  | cons step path ih =>
    cases step with
    | element index =>
      cases t with
      | array element r => exact ih (t := element) h
      | _ => cases h
    | charAt index =>
      simp only [at?] at h
      split at h
      · next hs =>
        cases h
        rw [hs.1]
        rfl
      · cases h

/-- The types with fewer pointers than one of the types of some cells are fewer than those with fewer
pointers than a greater number. -/
theorem countP_lt {cells : List Ty} {i n : Nat} {t : Ty} (hi : cells[i]? = some t) (ht : t.pointers < n) :
    cells.countP (·.pointers < t.pointers) < cells.countP (·.pointers < n) := by
  obtain ⟨before, after, rfl⟩ := List.append_of_mem (List.mem_of_getElem? hi)
  have hmono : ∀ us : List Ty, us.countP (·.pointers < t.pointers) ≤ us.countP (·.pointers < n) :=
    fun us => List.countP_mono_left fun u _ hu => by simp at hu ⊢; omega
  have hbefore := hmono before
  have hafter := hmono after
  simp only [List.countP_append, List.countP_cons, ht, decide_true, if_true, Nat.lt_irrefl, decide_false,
    Bool.false_eq_true, if_false]
  omega

end Ty

namespace Store

/-- A value refers to storage that holds another one. -/
def Points (s : Store) (v w : Value) : Prop := ∃ r ∈ v.refs, s.get r = .ok w

/-- Following so many pointers leads from a value to another one. -/
inductive Follows (s : Store) : Nat → Value → Value → Prop
  | refl {v : Value} : Follows s 0 v v
  | step {n : Nat} {v w x : Value} (h : s.Points v w) (hrest : Follows s n w x) : Follows s (n + 1) v x

/-- The value of a cell refers to another cell. -/
def Refers (s : Store) (c c' : Nat) : Prop := c' ∈ (s.content c).cells

end Store

namespace Value

variable {cells : List Ty} {v w : Value} {t : Ty} {r : Ref}

/-- What a value of a type refers to is of a type with fewer pointers. -/
theorem HasType.target (h : v.HasType cells t) (ht : t.isWritten) (hr : r ∈ v.refs) :
    ∃ u : Ty, u.isWritten ∧ r.HasType cells u ∧ u.pointers < t.pointers := by
  induction t generalizing v with
  | basic b =>
    cases v with
    | array | pointer => cases h
    | _ => cases hr
  | array element range ih =>
    obtain ⟨lower, items, rfl, -, hitems⟩ := h
    obtain ⟨item, hitem, hr⟩ := mem_refsOf.mp hr
    exact ih (hitems item hitem) ht hr
  | pointer target =>
    obtain ⟨p, rfl, htarget⟩ := h
    cases p with
    | none => cases hr
    | some r' =>
      obtain rfl := List.mem_singleton.mp hr
      exact ⟨target, ht, htarget r rfl, Nat.lt_succ_self _⟩
  | text =>
    obtain ⟨file, rfl⟩ := h
    cases hr
  | varargs | any | nil => cases ht

/-- What a part of a value refers to, the value refers to. -/
theorem refs_subset_of_follow {path : List Step} (h : v.follow path = .ok w) : w.refs ⊆ v.refs := by
  induction path generalizing v with
  | nil =>
    cases h
    exact List.Subset.refl _
  | cons step path ih =>
    cases step with
    | element index =>
      obtain ⟨item, hitem, hw⟩ := bind_eq_ok.mp h
      refine List.Subset.trans (ih hw) ?_
      cases v with
      | array lower items =>
        have hgives : Gives ((array lower items).elementAt index) fun item => item.refs ⊆ refsOf items :=
          elementAt_gives fun item hmem r hr => mem_refsOf.mpr ⟨item, hmem, hr⟩
        rw [hitem] at hgives
        exact hgives
      | _ => cases hitem
    | charAt index =>
      obtain ⟨c, -, hw⟩ := bind_eq_ok.mp h
      cases hw
      exact List.nil_subset _

end Value

/-- All that a value refers to is in cells of types with fewer pointers than a number. -/
def Value.Below (cells : List Ty) (n : Nat) (v : Value) : Prop :=
  ∀ r ∈ v.refs, ∀ t, cells[r.cell]? = some t → t.pointers < n

namespace Store.Typed

variable {cells : List Ty} {s : Store} (hs : s.Typed cells) (hw : Ty.AllWritten cells)
include hs

/-- Following pointers takes one of them off the type each time. -/
theorem follows_le {n : Nat} {v w : Value} {t : Ty} (h : s.Follows n v w) (hv : v.HasType cells t)
    (ht : t.isWritten) : n ≤ t.pointers := by
  induction h generalizing t with
  | refl => exact Nat.zero_le _
  | step h hrest ih =>
    obtain ⟨r, hr, hget⟩ := h
    obtain ⟨u, hu, htarget, hlt⟩ := hv.target ht hr
    have hgives := hs.get htarget
    rw [hget] at hgives
    exact Nat.lt_of_le_of_lt (ih hgives hu) hlt

/-- The cell that a reference leads to has a type. -/
theorem exists_cell {r : Ref} {w : Value} (h : s.get r = .ok w) :
    ∃ root t, s.cells[r.cell]? = some (some root) ∧ cells[r.cell]? = some t ∧
      root.follow r.path = .ok w := by
  unfold Store.get at h
  split at h
  · next root hroot =>
    have hlt : r.cell < cells.length := hs.size ▸ (Array.getElem?_eq_some_iff.mp hroot).1
    exact ⟨root, _, hroot, List.getElem?_eq_getElem hlt, h⟩
  · cases h

include hw

/-- What a cell refers to is in a cell of a type with fewer pointers. -/
theorem exists_target {i : Nat} {root : Value} (hroot : s.cells[i]? = some (some root)) {t : Ty}
    (hi : cells[i]? = some t) {r : Ref} (hr : r ∈ root.refs) :
    ∃ u, cells[r.cell]? = some u ∧ u.pointers < t.pointers := by
  obtain ⟨v, hv, htype⟩ := hs.cell i t hi
  cases hv.symm.trans hroot
  obtain ⟨u, -, ⟨u', hu', hpath⟩, hlt⟩ := htype.target (hw t (List.mem_of_getElem? hi)) hr
  exact ⟨u', hu', Ty.pointers_at? hpath ▸ hlt⟩

theorem below_of_get {r : Ref} {w : Value} (h : s.get r = .ok w) :
    ∃ t, cells[r.cell]? = some t ∧ w.Below cells t.pointers := by
  obtain ⟨root, t, hroot, ht, hfollow⟩ := hs.exists_cell h
  refine ⟨t, ht, fun r' hr' u hu => ?_⟩
  obtain ⟨u', hu', hlt⟩ := hs.exists_target hw hroot ht (Value.refs_subset_of_follow hfollow hr')
  cases hu.symm.trans hu'
  exact hlt

/-- Along the way from one cell to another the types of the cells have fewer and fewer pointers. -/
theorem lt_of_refers {c c' : Nat} (h : Relation.TransGen s.Refers c c') :
    ∃ t t', cells[c]? = some t ∧ cells[c']? = some t' ∧ t'.pointers < t.pointers := by
  have hstep : ∀ {c c'}, s.Refers c c' →
      ∃ t t', cells[c]? = some t ∧ cells[c']? = some t' ∧ t'.pointers < t.pointers := by
    intro c c' h
    unfold Store.Refers Store.content at h
    match hroot : s.cells[c]? with
    | some (some root) =>
      rw [hroot, show ((some (some root)).join.getD (.pointer none) : Value) = root from rfl,
        Value.cells_eq_map_refs] at h
      obtain ⟨r, hr, rfl⟩ := List.mem_map.mp h
      have hlt : c < cells.length := hs.size ▸ (Array.getElem?_eq_some_iff.mp hroot).1
      have hcell := List.getElem?_eq_getElem hlt
      obtain ⟨u, hu, hless⟩ := hs.exists_target hw hroot hcell hr
      exact ⟨_, u, hcell, hu, hless⟩
    | some none | none => simp [hroot, Value.cells] at h
  induction h with
  | single h => exact hstep h
  | tail _ h ih =>
    obtain ⟨t, u, ht, hu, hlt⟩ := ih
    obtain ⟨u', t', hu', ht', hlt'⟩ := hstep h
    cases hu.symm.trans hu'
    exact ⟨t, t', ht, ht', hlt'.trans hlt⟩

theorem acyclic (c : Nat) : ¬ Relation.TransGen s.Refers c c := by
  intro h
  obtain ⟨t, t', ht, ht', hlt⟩ := hs.lt_of_refers hw h
  cases ht.symm.trans ht'
  exact Nat.lt_irrefl _ hlt

theorem acc_of_below {n : Nat} {v : Value} (h : v.Below cells n) : Acc (fun w v => s.Points v w) v := by
  induction n using Nat.strong_induction_on generalizing v with
  | h n ih =>
    refine .intro v fun w hpoints => ?_
    obtain ⟨r, hr, hget⟩ := hpoints
    obtain ⟨t, ht, hbelow⟩ := hs.below_of_get hw hget
    exact ih _ (h r hr t ht) hbelow

/-- From no value can pointers be followed on and on. -/
theorem wellFounded_points : WellFounded fun w v => s.Points v w := by
  refine ⟨fun v => .intro v fun w hpoints => ?_⟩
  obtain ⟨r, -, hget⟩ := hpoints
  obtain ⟨t, -, hbelow⟩ := hs.below_of_get hw hget
  exact hs.acc_of_below hw hbelow

/-- A value is shown to its end at a depth of as many cells as there are with fewer pointers. -/
theorem showWithin_succ {n depth : Nat} {v : Value} (h : v.Below cells n)
    (hdepth : cells.countP (·.pointers < n) ≤ depth) :
    s.showWithin (depth + 1) v = s.showWithin depth v := by
  induction depth generalizing n v with
  | zero =>
    refine Value.showWith_congr fun r hr => ?_
    cases hget : s.get r with
    | error f => rfl
    | ok w =>
      obtain ⟨t, ht, -⟩ := hs.below_of_get hw hget
      have hlt := Ty.countP_lt ht (h r hr t ht)
      omega
  | succ depth ih =>
    refine Value.showWith_congr fun r hr => ?_
    cases hget : s.get r with
    | error f => rfl
    | ok w =>
      obtain ⟨t, ht, hbelow⟩ := hs.below_of_get hw hget
      have hlt := Ty.countP_lt ht (h r hr t ht)
      exact congrArg ("^" ++ ·) (ih hbelow (by omega))

theorem render_eq (v : Value) : s.render v = v.showWith fun r =>
    match s.get r with
    | .ok w => "^" ++ s.render w
    | .error _ => "^?" := by
  refine Value.showWith_congr fun r _ => ?_
  cases hget : s.get r with
  | error f => rfl
  | ok w =>
    obtain ⟨t, -, hbelow⟩ := hs.below_of_get hw hget
    have hcount : cells.countP (·.pointers < t.pointers) ≤ s.size :=
      List.countP_le_length.trans hs.size.ge
    exact congrArg ("^" ++ ·) (hs.showWithin_succ hw hbelow hcount).symm

end Store.Typed

namespace Toolchain

/-- Rendering ends. At every point of a run, following pointers from a value that storage of a type holds
passes no more of them than are nested in the type, and no cell leads back to itself. So there is no value
from which pointers can be followed on and on, and the text of a value is that of what it refers to, down
to the end of all its pointers. -/
theorem compile_pointers {t : Toolchain} {unit source : String} {p : Program} {l : Launch}
    (h : t.compile unit source = .ok p)
    (hl : ∀ l ∈ t.libraries, l.Fits {} ∧ ∀ r ∈ l.routines, r.Sound {}) (hw : l.world.store = {})
    {m : Machine} (hm : p.Reachable l m) :
    (∀ r ty v n w, p.Names l m r ty → m.world.store.get r = .ok v → m.world.store.Follows n v w →
      n ≤ ty.pointers) ∧
    (∀ c, ¬ Relation.TransGen m.world.store.Refers c c) ∧
    (WellFounded fun w v => m.world.store.Points v w) ∧
    ∀ v, m.world.render v = v.showWith fun r =>
      match m.world.store.get r with
      | .ok w => "^" ++ m.world.render w
      | .error _ => "^?" := by
  obtain ⟨a, ha, hstarts⟩ := compile_starts (d := {}) h true nofun nofun
    (fun q _ => Program.closes_of_kinds rfl q) hl hw
  obtain ⟨cells, hm⟩ := hstarts.machine hm
  refine ⟨fun r ty v n w hr hv hfollows => ?_, hm.store.acyclic hm.written,
    hm.store.wellFounded_points hm.written, hm.store.render_eq hm.written⟩
  obtain ⟨view, hshows⟩ := hr.shows ha rfl hm
  have hwritten := (hshows.exact (by simp)).isWritten hm.written
  have hgives := Ref.Shows.get hm.store hshows
  rw [hv] at hgives
  have hle := hm.store.follows_le hfollows hgives hwritten
  rwa [Ty.pointers_outline] at hle

/-- The hypotheses hold of a program that makes a pointer to a pointer. -/
theorem compile_pointers_nested : ∃ (p : Program) (l : Launch) (m : Machine) (r : Ref) (v : Value),
    standard.compile "test" "var q: ^^integer; begin new(q); new(q^); q^^ := 5 end." = .ok p ∧
    p.Reachable l m ∧ p.Names l m r (.pointer (.pointer .integer)) ∧ m.world.store.get r = .ok v ∧
    v.refs ≠ [] ∧ ∀ n w, m.world.store.Follows n v w → n ≤ 2 := by
  let text := "var q: ^^integer; begin new(q); new(q^); q^^ := 5 end."
  let l : Launch := ⟨{}, none, 100, { console := .ofInput "" }⟩
  have hleaves : (standard.compile "test" text).toOption.any
      (·.leaves l (.pointer (.pointer .integer)) fun v => !v.refs.isEmpty) := by decide +kernel
  obtain ⟨p, hp, hleaves⟩ := exists_ok_of_any hleaves
  obtain ⟨-, m, r, v, hm, hr, hv, hrefs⟩ := Program.names_of_leaves hleaves
  have hl : ∀ l ∈ standard.libraries, l.Fits {} ∧ ∀ r ∈ l.routines, r.Sound {} :=
    fun l hmem => ⟨Library.standard_fits l hmem, Library.standard_sound l hmem⟩
  refine ⟨p, l, m, r, v, hp, hm, hr, hv, by simpa using hrefs, fun n w hfollows => ?_⟩
  exact (compile_pointers hp hl rfl hm).1 r _ v n w hr hv hfollows

end Toolchain

end Pascal
