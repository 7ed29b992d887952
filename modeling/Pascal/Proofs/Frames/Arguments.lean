import Mathlib.Data.List.Nodup
import Pascal.Machine.Exec

/-!
# The slots of arguments

A call makes a frame with a slot for each parameter. Where parameters have different names, the slot of a
name is the one that was made for the argument of its position, and further variables of the routine do not
change it.
-/

namespace Pascal

variable {w w' w'' : World} {slots : List (String × Ref)} {key : String} {r : Ref}

namespace World

/-- Cells that are there stay as they are. -/
structure Keeps (w w' : World) : Prop where
  cell : ∀ (n : Nat) c, w.store.cells[n]? = some c → w'.store.cells[n]? = some c

theorem Keeps.refl (w : World) : w.Keeps w := ⟨fun _ _ h => h⟩

theorem Keeps.trans (h : w.Keeps w') (h' : w'.Keeps w'') : w.Keeps w'' :=
  ⟨fun n c hc => h'.cell n c (h.cell n c hc)⟩

theorem Keeps.alloc (w : World) (v : Value) : w.Keeps (w.alloc v).2 := by
  refine ⟨fun n c hc => ?_⟩
  obtain ⟨hlt, -⟩ := Array.getElem?_eq_some_iff.mp hc
  simp only [World.alloc, Store.alloc]
  rwa [Array.getElem?_push_lt hlt, ← Array.getElem?_eq_getElem hlt]

theorem Keeps.allocVariable (w : World) (v : Variable) : w.Keeps (w.allocVariable v).2 := by
  have hinitial : w.Keeps (w.initialValue v.ty).2 := by
    unfold initialValue
    split <;> exact ⟨fun _ _ h => h⟩
  unfold World.allocVariable
  split
  · exact .alloc ..
  · exact hinitial.trans (.alloc ..)

theorem Keeps.addSlots (vs : List Variable) (w : World) (slots : List (String × Ref)) :
    w.Keeps (w.addSlots slots vs).2 := by
  induction vs generalizing w slots with
  | nil => exact .refl w
  | cons v vs ih =>
    unfold World.addSlots
    dsimp only
    split
    · exact ih ..
    · exact (Keeps.allocVariable w v).trans (ih ..)

/-- A name that has a slot keeps it. -/
theorem find?_addSlots {slot : String × Ref} {vs : List Variable}
    (h : slots.find? (·.1 == key) = some slot) :
    (w.addSlots slots vs).1.find? (·.1 == key) = some slot := by
  induction vs generalizing w slots with
  | nil => exact h
  | cons v vs ih =>
    unfold World.addSlots
    dsimp only
    split
    · exact ih h
    · next hnew =>
      refine ih ?_
      rw [List.find?_cons_of_neg, h]
      intro hkey
      refine hnew (List.any_eq_true.mpr ⟨slot, List.mem_of_find?_eq_some h, ?_⟩)
      have hname : Text.lower v.name = key := beq_iff_eq.mp hkey
      simpa [hname] using List.find?_some h

end World

/-- A cell is bound to an argument: it is what is passed by reference, or a new cell with what is passed by
value. -/
def Passed.BoundTo (w w' : World) (r : Ref) : Passed → Prop
  | .value v => w.store.cells[r.cell]? = none ∧ w'.store.get r = .ok v
  | .reference r' => r = r'

theorem Passed.BoundTo.mono {arg : Passed} {w₀ : World} (h : arg.BoundTo w w' r) (hw : w₀.Keeps w)
    (hw' : w'.Keeps w'') : arg.BoundTo w₀ w'' r := by
  cases arg with
  | reference r' => exact h
  | value v =>
    obtain ⟨hnew, hget⟩ := h
    constructor
    · rw [Option.eq_none_iff_forall_ne_some]
      intro c hc
      have hc := hw.cell _ c hc
      rw [hnew] at hc
      cases hc
    · unfold Store.get at hget ⊢
      split at hget
      · next root hroot =>
        rw [hw'.cell _ _ hroot]
        exact hget
      · cases hget

namespace UserRoutine

variable {ps : List Parameter} {args : List Passed} {arg : Passed} {p : Parameter} {i : Nat}

theorem bindParams_keeps (ps : List Parameter) (args : List Passed) (w : World) :
    w.Keeps (bindParams ps args w).2 := by
  induction ps generalizing args w with
  | nil => cases args <;> exact .refl w
  | cons p ps ih =>
    cases args with
    | nil => exact .refl w
    | cons a args =>
      cases a with
      | value v => exact (World.Keeps.alloc w v).trans (ih args _)
      | reference r => exact ih args w

/-- The slot that is made for the argument of a position. -/
theorem bindParams_getElem? (hp : ps[i]? = some p) (harg : args[i]? = some arg) (w : World) :
    ∃ r, (bindParams ps args w).1[i]? = some (Text.lower p.name, r) ∧
      arg.BoundTo w (bindParams ps args w).2 r := by
  induction ps generalizing args w i with
  | nil => cases hp
  | cons q ps ih =>
    cases args with
    | nil => cases harg
    | cons a args =>
      cases i with
      | zero =>
        cases hp
        cases harg
        cases arg with
        | reference r => exact ⟨r, rfl, rfl⟩
        | value v =>
          refine ⟨(w.alloc v).1, rfl, ?_⟩
          have hbound : Passed.BoundTo w (w.alloc v).2 (w.alloc v).1 (.value v) := by
            constructor <;> simp [World.alloc, Store.alloc, Store.get, Value.follow]
          exact hbound.mono (.refl w) (bindParams_keeps ps args _)
      | succ i =>
        rw [List.getElem?_cons_succ] at hp harg
        cases a with
        | reference r => exact ih hp harg w
        | value v =>
          obtain ⟨r, hr, hbound⟩ := ih hp harg (w.alloc v).2
          exact ⟨r, hr, hbound.mono (.alloc w v) (.refl _)⟩

/-- The names of the slots are those of the parameters. -/
theorem bindParams_names (ps : List Parameter) (args : List Passed) (w : World) :
    (bindParams ps args w).1.map (·.1) <+: ps.map fun p => Text.lower p.name := by
  induction ps generalizing args w with
  | nil => cases args <;> exact List.nil_prefix
  | cons p ps ih =>
    cases args with
    | nil => exact List.nil_prefix
    | cons a args =>
      cases a <;> exact (List.prefix_cons_inj _).mpr (ih args _)

/-- A parameter that shares its name with no other one has the slot of its argument in a new frame. -/
theorem newFrame_slot? {f : UserRoutine}
    (hnames : (f.signature.params.map fun p => Text.lower p.name).Nodup)
    (hp : f.signature.params[i]? = some p) (harg : args[i]? = some arg) (vars : List Variable)
    (w : World) : ∃ r, (f.newFrame vars args w).1.slot? (Text.lower p.name) = some r ∧
      arg.BoundTo w (f.newFrame vars args w).2 r := by
  obtain ⟨r, hr, hbound⟩ := bindParams_getElem? hp harg w
  refine ⟨r, ?_, hbound.mono (.refl w) (.addSlots ..)⟩
  have hnodup := hnames.sublist (bindParams_names f.signature.params args w).sublist
  have hfind : (bindParams f.signature.params args w).1.find? (·.1 == Text.lower p.name) =
      some (Text.lower p.name, r) := by
    have hmem := List.mem_of_getElem? hr
    obtain ⟨slot, hslot⟩ := Option.isSome_iff_exists.mp
      (List.find?_isSome (p := (·.1 == Text.lower p.name)).mpr ⟨_, hmem, beq_self_eq_true _⟩)
    have hkey : slot.1 = Text.lower p.name := by simpa using List.find?_some hslot
    rw [hslot, List.inj_on_of_nodup_map hnodup (List.mem_of_find?_eq_some hslot) hmem hkey]
  simp only [newFrame, Frame.slot?, World.find?_addSlots hfind, Option.map_some]

end UserRoutine

/-- Code that runs in frames of its own in front of the frame of a scope still finds the slots of this frame. -/
theorem Env.variableRef_of_slot? (env : Env) {inner outer : Chain} {f : Frame}
    (hinner : ∀ g ∈ inner, g.scope ≠ f.scope) (h : f.slot? key = some r) :
    env.variableRef (inner ++ f :: outer) ⟨f.scope, key⟩ = .ok r := by
  have hfind : (inner ++ f :: outer).find? (·.scope == f.scope) = some f := by
    rw [List.find?_append, List.find?_eq_none.mpr (by simpa using hinner)]
    simp
  simp [Env.variableRef, hfind, h]

end Pascal
