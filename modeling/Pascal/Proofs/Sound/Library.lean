import Pascal.Proofs.Library.Foreign
import Pascal.Proofs.Sound.Frames

/-!
# Library routines on typed storage

A library routine that is called with arguments of the types of its parameters keeps the types of all
storage and gives a result of its type. It fails for no value of a wrong kind, but for one that cannot be
read or that is the code of no character.
-/

namespace Pascal

variable {d : Discipline} {cells : List Ty}

/-- The faults that typed programs end with. Values of a wrong kind are found only where variables are
read whose values have no text, and where ranges are not of ordinal types. -/
def Fault.Lawful (d : Discipline) : Fault → Prop
  | .invalidValue expected found => expected = "character code" ∨
      (expected = "readable variable" ∧ (found = "array" ∨ found = "pointer" ∨ found = "text")) ∨
      (expected = "ordinal" ∧ d.takesRanges)
  | .internal what => (Fault.internal what).isScoping = true ∨ what = "negative offset"
  | _ => True

namespace Fault

variable {f : Fault}

theorem Regular.lawful (h : f.Regular) : f.Lawful d := by
  cases f with
  | internal what => exact .inr h
  | invalidValue => cases h
  | _ => trivial

theorem lawful_of_isForeign (h : f.isForeign) : f.Lawful d := by
  cases f <;> trivial

theorem lawful_of_isScoping (h : f.isScoping) : f.Lawful d := by
  cases f with
  | internal what => exact .inl h
  | _ => trivial

end Fault

namespace Host

variable {α β : Type}

/-- A routine keeps the types of all storage, gives what has a property, and fails for lawful reasons. -/
def Sound (d : Discipline) (cells : List Ty) (x : Host α) (Q : α → Prop) : Prop :=
  ∀ w : World, w.store.Typed cells →
    match x w with
    | .ok a w' => w'.store.Typed cells ∧ Q a
    | .error e w' => w'.store.Typed cells ∧ ∀ f, e = .fault f → f.Lawful d

namespace Sound

variable {x : Host α} {P : α → Prop} {Q : β → Prop}

theorem pure {a : α} (h : P a) : Sound d cells (Pure.pure a) P := fun _ hw => ⟨hw, h⟩

theorem throw {e : Refusal} (h : ∀ f, e = .fault f → f.Lawful d) :
    Sound d cells (throw e : Host α) P := fun _ hw => ⟨hw, h⟩

theorem fail {f : Fault} (h : f.Lawful d) : Sound d cells (Host.fail f : Host α) P :=
  throw fun _ he => Refusal.fault.inj he ▸ h

theorem liftFault {r : Except Fault α} (h : Gives r P) : Sound d cells (Host.liftFault r) P := by
  cases r with
  | ok a => exact pure h
  | error f => exact fail (Fault.Regular.lawful h)

theorem bind {f : α → Host β} (hx : Sound d cells x P) (hf : ∀ a, P a → Sound d cells (f a) Q) :
    Sound d cells (x >>= f) Q := by
  intro w hw
  have h := hx w hw
  simp only [Bind.bind, EStateM.bind]
  cases hr : x w with
  | ok a w' =>
    rw [hr] at h
    exact hf a h.2 w' h.1
  | error e w' =>
    rw [hr] at h
    exact h

theorem mono {R : α → Prop} (hx : Sound d cells x P) (h : ∀ a, P a → R a) : Sound d cells x R := by
  intro w hw
  have hr := hx w hw
  cases hxw : x w with
  | ok a w' =>
    rw [hxw] at hr
    exact ⟨hr.1, h a hr.2⟩
  | error e w' =>
    rw [hxw] at hr
    exact hr

theorem mapM {g : α → Host β} {xs : List α} (h : ∀ x ∈ xs, Sound d cells (g x) Q) :
    Sound d cells (xs.mapM g) fun ys => ∀ y ∈ ys, Q y := by
  induction xs with
  | nil => exact pure (by simp)
  | cons x xs ih =>
    obtain ⟨hx, hxs⟩ := List.forall_mem_cons.mp h
    rw [List.mapM_cons]
    exact hx.bind fun y hy => (ih hxs).bind fun ys hys =>
      pure (List.forall_mem_cons.mpr ⟨hy, hys⟩)

theorem get {r : Ref} {t : Ty} (hr : r.HasType cells t) :
    Sound d cells (Host.get r) (Value.HasType cells t) :=
  fun w hw => liftFault (hw.get hr) w hw

theorem render (v : Value) : Sound d cells (Host.render v) fun _ => True := fun _ hw => ⟨hw, trivial⟩

theorem update {r : Ref} {t : Ty} (hr : r.HasType cells t) {f : Value → Except Fault Value}
    (hf : ∀ old, old.HasType cells t → Gives (f old) (Value.HasType cells t)) :
    Sound d cells (Host.update r f) fun _ => True := by
  intro w hw
  have h := hw.revised hr hf
  unfold Host.update
  cases hv : w.store.revised r f with
  | ok v =>
    rw [hv] at h
    exact ⟨h, trivial⟩
  | error e =>
    rw [hv] at h
    exact ⟨hw, fun f he => Refusal.fault.inj he ▸ Fault.Regular.lawful h⟩

theorem set {r : Ref} {t : Ty} {v : Value} (hr : r.HasType cells t) (hv : v.HasType cells t) :
    Sound d cells (Host.set r v) fun _ => True := update hr fun _ _ => hv

theorem write (text : String) : Sound d cells (Host.write text) fun _ => True := by
  intro w hw
  unfold Host.write
  cases w.console.writeRefusal with
  | none => exact ⟨hw, trivial⟩
  | some message => exact ⟨hw, fun f he => Refusal.fault.inj he ▸ trivial⟩

theorem clearScreen : Sound d cells Host.clearScreen fun _ => True := by
  intro w hw
  unfold Host.clearScreen
  cases w.console.clearRefusal with
  | none => exact ⟨hw, trivial⟩
  | some message => exact ⟨hw, fun f he => Refusal.fault.inj he ▸ trivial⟩

theorem onConsole {read : Reader.Read α} (hread : Reader.Foreign read) :
    Sound d cells (Host.onConsole read) fun _ => True := by
  intro w hw
  unfold Host.onConsole
  cases hr : read w.console.reader with
  | ok a r => exact ⟨hw, trivial⟩
  | error e r =>
    exact ⟨hw, fun f he => Refusal.fault.inj he ▸ Fault.lawful_of_isForeign (hread _ _ _ hr)⟩

theorem onFile (n : Nat) {change : TextFile → Disk → TextFile.Change}
    (hchange : ∀ f disk, Pascal.Foreign (change f disk)) :
    Sound d cells (Host.onFile n change) fun _ => True := by
  intro w hw
  have h := hchange (w.file n) w.disk
  unfold Host.onFile
  cases hr : change (w.file n) w.disk with
  | ok p => exact ⟨hw, trivial⟩
  | error e =>
    rw [hr] at h
    exact ⟨hw, fun f he => Refusal.fault.inj he ▸ Fault.lawful_of_isForeign (Fails.error_iff.mp h)⟩

theorem fromFile (n : Nat) {read : Reader.Read α} (hread : Reader.Foreign read) :
    Sound d cells (Host.fromFile n read) fun _ => True := by
  intro w hw
  unfold Host.fromFile
  cases (w.file n).state with
  | reading r =>
    dsimp only
    cases hr : read r with
    | ok a r' => exact ⟨hw, trivial⟩
    | error e r' =>
      exact ⟨hw, fun f he => Refusal.fault.inj he ▸ Fault.lawful_of_isForeign (hread _ _ _ hr)⟩
  | closed | writing =>
    exact ⟨hw, fun f he => Refusal.fault.inj he ▸
      Fault.lawful_of_isForeign (TextFile.isForeign_notOpen _)⟩

/-- Waiting stops in a cancelled run. -/
theorem checked : Sound d cells
    (do if (← EStateM.get).cancelled then Host.fail .cancelled : Host Unit) fun _ => True := by
  intro w hw
  have hrun : (do if (← EStateM.get).cancelled then Host.fail .cancelled : Host Unit) w =
      if w.cancelled then .error (.fault .cancelled) w else .ok () w := by
    change (if w.cancelled then Host.fail .cancelled else Pure.pure () : Host Unit) w = _
    split <;> rfl
  rw [hrun]
  cases w.cancelled with
  | true => exact ⟨hw, fun f he => Refusal.fault.inj he ▸ trivial⟩
  | false => exact ⟨hw, trivial⟩

end Sound

end Host

/-- What a routine of a signature is called with, by the values that stand for it. -/
def Signature.Admits (d : Discipline) (cells : List Ty) (s : Signature) (args : List Value) : Prop :=
  ∃ passed, args = passed.map Passed.toValue ∧ passedTyped d cells s.split.2 passed s.split.1

/-- What a routine of a signature gives. -/
def Signature.Returns (d : Discipline) (cells : List Ty) (s : Signature) (result : Option Value) : Prop :=
  ∀ t, s.result = some t → ∃ v, result = some v ∧ v.HasType cells (t.outline d.bounds)

/-- A library routine that is called with what it admits is sound and gives what it returns. -/
def Routine.Sound (d : Discipline) (r : Routine) : Prop :=
  ∀ cells args, r.signature.Admits d cells args →
    Host.Sound d cells (r.run args) (r.signature.Returns d cells)

theorem passedTyped.getElem? {further : Option (Ty × ParamMode)} {passed : List Passed}
    {ps : List Parameter} (h : passedTyped d cells further passed ps) {i : Nat} {p : Parameter}
    {x : Passed} (hp : ps[i]? = some p) (hx : passed[i]? = some x) : x.Typed d cells p.ty p.mode := by
  induction passed generalizing ps i with
  | nil => simp at hx
  | cons y passed ih =>
    cases ps with
    | nil => simp at hp
    | cons q ps =>
      cases i with
      | zero =>
        cases hp
        cases hx
        exact h.1
      | succ i => exact ih h.2 hp hx

theorem passedTyped.mem_drop {further : Option (Ty × ParamMode)} {passed : List Passed}
    {ps : List Parameter} (h : passedTyped d cells further passed ps) {x : Passed}
    (hx : x ∈ passed.drop ps.length) : ∃ t mode, further = some (t, mode) ∧ x.Typed d cells t mode := by
  induction passed generalizing ps with
  | nil => simp at hx
  | cons y passed ih =>
    cases ps with
    | nil =>
      obtain ⟨hy, hrest⟩ := h
      rcases List.mem_cons.mp hx with rfl | hx
      · exact hy
      · exact ih hrest (by simpa using hx)
    | cons p ps => exact ih h.2 (by simpa using hx)

namespace Signature.Admits

variable {s : Signature} {args : List Value}

/-- An argument that is passed by value is of the type of its parameter. -/
theorem value (h : s.Admits d cells args) {i : Nat} {p : Parameter} (hp : s.split.1[i]? = some p)
    (hm : p.mode ≠ .var) {v : Value} (hv : args[i]? = some v) :
    v.HasType cells (p.ty.outline d.bounds) := by
  obtain ⟨passed, rfl, hpassed⟩ := h
  rw [List.getElem?_map] at hv
  obtain ⟨x, hx, rfl⟩ := Option.map_eq_some_iff.mp hv
  have htyped := hpassed.getElem? hp hx
  cases x with
  | value v => exact htyped.2
  | reference r => exact absurd htyped.1 hm

/-- An argument that is passed by reference leads to storage that can be seen as the parameter. -/
theorem reference (h : s.Admits d cells args) {i : Nat} {p : Parameter}
    (hp : s.split.1[i]? = some p) (hm : p.mode = .var) {v : Value} (hv : args[i]? = some v) :
    ∃ r u, v = .pointer (some r) ∧ r.HasType cells u ∧
      (p.ty = .any ∨ u.Seen d.bounds (p.ty.outline d.bounds)) := by
  obtain ⟨passed, rfl, hpassed⟩ := h
  rw [List.getElem?_map] at hv
  obtain ⟨x, hx, rfl⟩ := Option.map_eq_some_iff.mp hv
  have htyped := hpassed.getElem? hp hx
  cases x with
  | value v => exact absurd hm htyped.1
  | reference r =>
    obtain ⟨-, u, hu, hseen⟩ := htyped
    exact ⟨r, u, rfl, hu, hseen⟩

/-- Further arguments that are passed by reference are references to storage. -/
theorem further (h : s.Admits d cells args) {t : Ty} (hf : s.split.2 = some (t, .var)) {v : Value}
    (hv : v ∈ args.drop s.split.1.length) : ∃ r u, v = .pointer (some r) ∧ r.HasType cells u := by
  obtain ⟨passed, rfl, hpassed⟩ := h
  rw [← List.map_drop] at hv
  obtain ⟨x, hx, rfl⟩ := List.mem_map.mp hv
  obtain ⟨t', mode, hf', htyped⟩ := hpassed.mem_drop hx
  cases hf.symm.trans hf'
  cases x with
  | value v => exact absurd rfl htyped.1
  | reference r =>
    obtain ⟨-, u, hu, -⟩ := htyped
    exact ⟨r, u, rfl, hu⟩

end Signature.Admits

end Pascal
