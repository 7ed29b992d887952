import Mathlib.Data.List.Infix
import Pascal.Machine.Forgotten
import Pascal.Proofs.Typing.Outline

/-!
# Values of types

The type of a value that holds pointers depends on the types of the cells of the store.
-/

namespace Pascal

/-- The part of a type at the end of a path. No part lies behind a character. -/
def Ty.at? (t : Ty) : List Step → Option Ty
  | [] => some t
  | .element _ :: path =>
    match t with
    | .array element _ => element.at? path
    | _ => none
  | .charAt _ :: path => if t = .string ∧ path = [] then some .char else none
termination_by structural path => path

namespace Ty

/-- The type one step further on. -/
def step? (t : Ty) (s : Step) : Option Ty := t.at? [s]

theorem at?_append {t u : Ty} {path : List Step} (h : t.at? path = some u) (hu : u ≠ .char)
    (s : Step) : t.at? (path ++ [s]) = u.step? s := by
  induction path generalizing t with
  | nil => cases h; rfl
  | cons step path ih =>
    cases step with
    | element i =>
      cases t with
      | array element r => exact ih h
      | _ => cases h
    | charAt i =>
      simp only [at?] at h
      split at h
      · cases h; exact absurd rfl hu
      · cases h

end Ty

/-- What a reference leads to is of a type. -/
def Ref.HasType (cells : List Ty) (r : Ref) (t : Ty) : Prop :=
  ∃ root, cells[r.cell]? = some root ∧ root.at? r.path = some t

/-- An array with these bounds can be stored where the range is declared. -/
def Subrange.Admits (r : Subrange) (lower : Int64) (length : Nat) : Prop :=
  r.isOpen = false → lower = r.lower ∧ length = r.length

namespace Value

/-- The basic type of a value, if it has one. -/
def basic? : Value → Option Basic
  | boolean _ => some .boolean
  | integer _ => some .integer
  | long _ => some .long
  | double _ => some .double
  | char _ => some .char
  | string _ => some .string
  | array _ _ | pointer _ | text _ => none

/-- Where the cells have the given types, the value is one of a type. -/
def HasType (cells : List Ty) : Ty → Value → Prop
  | .basic b, v => v.basic? = some b
  | .array element r, v => ∃ lower items, v = array lower items ∧ r.Admits lower items.length ∧
      ∀ item ∈ items, item.HasType cells element
  | .pointer t, v => ∃ target, v = pointer target ∧ ∀ r, target = some r → r.HasType cells t
  | .text, v => ∃ file, v = text file
  | .nil, v => v = pointer none
  | .varargs _, _ | .any, _ => True

variable {cells cells' : List Ty}

/-- A longer row of cells gives a cell the same type. -/
theorem getElem?_of_prefix {i : Nat} {t : Ty} (h : cells <+: cells') (hi : cells[i]? = some t) :
    cells'[i]? = some t := by
  obtain ⟨rest, rfl⟩ := h
  rw [List.getElem?_append_left (List.getElem?_eq_some_iff.mp hi).1]
  exact hi

theorem HasType.mono {t : Ty} {v : Value} (h : v.HasType cells t) (hc : cells <+: cells') :
    v.HasType cells' t := by
  induction t generalizing v with
  | array element r ih =>
    obtain ⟨lower, items, rfl, hr, hitems⟩ := h
    exact ⟨lower, items, rfl, hr, fun item hi => ih (hitems item hi)⟩
  | pointer t =>
    obtain ⟨target, rfl, htarget⟩ := h
    refine ⟨target, rfl, fun r hr => ?_⟩
    obtain ⟨root, hroot, hpath⟩ := htarget r hr
    exact ⟨root, getElem?_of_prefix hc hroot, hpath⟩
  | _ => exact h

/-- Whether a value refers to no storage. -/
def Plain (v : Value) : Prop := v.cells = []

theorem plain_array {lower : Int64} {items : List Value} :
    (array lower items).Plain ↔ ∀ item ∈ items, item.Plain := by
  have hitems : Value.cellsOf items = [] ↔ ∀ item ∈ items, item.Plain := by
    induction items with
    | nil => simp [cellsOf]
    | cons v vs ih => simp only [cellsOf, List.append_eq_nil_iff, ih, List.forall_mem_cons, Plain]
  simpa [Plain, cells] using hitems

theorem plain_of_basic {v : Value} {b : Basic} (h : v.basic? = some b) : v.Plain := by
  cases v <;> simp_all [basic?, Plain, cells]

mutual

/-- The storage that a value refers to directly. -/
def refs : Value → List Ref
  | pointer (some r) => [r]
  | array _ items => refsOf items
  | _ => []

def refsOf : List Value → List Ref
  | [] => []
  | v :: vs => refs v ++ refsOf vs

end

theorem mem_refsOf {r : Ref} {vs : List Value} : r ∈ refsOf vs ↔ ∃ v ∈ vs, r ∈ v.refs := by
  induction vs with
  | nil => simp [refsOf]
  | cons v vs ih => simp [refsOf, ih]

/-- The cells that a value refers to are those of the storage that it refers to. -/
theorem cells_eq_map_refs (v : Value) : v.cells = v.refs.map (·.cell) := by
  refine Value.rec (motive_1 := fun v => v.cells = v.refs.map (·.cell))
    (motive_2 := fun vs => cellsOf vs = (refsOf vs).map (·.cell))
    (fun _ => rfl) (fun _ => rfl) (fun _ => rfl) (fun _ => rfl) (fun _ => rfl) (fun _ => rfl)
    (fun _ _ ih => ih) ?pointer (fun _ => rfl) rfl ?cons v
  case pointer =>
    intro target
    cases target <;> rfl
  case cons =>
    intro v vs ih ihs
    simp only [cellsOf, refsOf, List.map_append, ih, ihs]

/-- The text of a value depends only on the texts of what it refers to. -/
theorem showWith_congr {v : Value} {pointee pointee' : Ref → String}
    (h : ∀ r ∈ v.refs, pointee r = pointee' r) : v.showWith pointee = v.showWith pointee' := by
  refine Value.rec
    (motive_1 := fun v => (∀ r ∈ v.refs, pointee r = pointee' r) →
      v.showWith pointee = v.showWith pointee')
    (motive_2 := fun vs => (∀ r ∈ refsOf vs, pointee r = pointee' r) →
      showItems pointee vs = showItems pointee' vs)
    (fun _ _ => rfl) (fun _ _ => rfl) (fun _ _ => rfl) (fun _ _ => rfl) (fun _ _ => rfl)
    (fun _ _ => rfl) ?array ?pointer (fun _ _ => rfl) (fun _ => rfl) ?cons v h
  case array =>
    intro lower items ih h
    simp only [showWith, ih h]
  case pointer =>
    intro target h
    cases target with
    | none => rfl
    | some r => exact h r (List.mem_singleton.mpr rfl)
  case cons =>
    intro v vs ih ihs h
    simp only [showItems, ih fun r hr => h r (List.mem_append_left _ hr),
      ihs fun r hr => h r (List.mem_append_right _ hr)]

/-- The text of a value that refers to no storage does not depend on what is stored. -/
theorem showWith_of_plain {v : Value} (h : v.Plain) (pointee pointee' : Ref → String) :
    v.showWith pointee = v.showWith pointee' := by
  refine showWith_congr fun r hr => ?_
  have hcell : r.cell ∈ v.cells := v.cells_eq_map_refs ▸ List.mem_map_of_mem hr
  rw [h] at hcell
  cases hcell

theorem HasType.opens {t t' : Ty} {v : Value} (h : v.HasType cells t) (ht : t.Opens t') :
    v.HasType cells t' := by
  induction ht generalizing v with
  | refl => exact h
  | array _ hr ih =>
    obtain ⟨lower, items, rfl, ha, hitems⟩ := h
    refine ⟨lower, items, rfl, fun hopen => ?_, fun item hi => ih (hitems item hi)⟩
    rcases hr with hr | rfl
    · simp [hr] at hopen
    · exact ha hopen

/-- A variable starts with a value of its type. -/
theorem hasType_initial (t : Ty) (file : Nat) (bounds : Bool) :
    (t.initial file).HasType cells (t.outline bounds) := by
  induction t with
  | basic b => cases b <;> rfl
  | array element r ih =>
    refine ⟨r.lower, _, rfl, ?_, fun item hi => ?_⟩
    · cases bounds with
      | false => exact fun h => by simp [Subrange.unbounded, Subrange.isOpen] at h
      | true => exact fun _ => ⟨rfl, by simp⟩
    · rw [(List.mem_replicate.mp hi).2]
      exact ih
  | pointer t => exact ⟨none, rfl, by simp⟩
  | varargs | any => trivial
  | text => exact ⟨file, rfl⟩
  | nil => rfl

end Value

end Pascal
