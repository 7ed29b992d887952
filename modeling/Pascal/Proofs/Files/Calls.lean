import Pascal.Proofs.Files.Apart
import Pascal.Proofs.Library.FileCalls
import Pascal.Proofs.Library.Standard

/-!
# Library routines and the files of variables

A library routine makes no file, and it stores only values that refer to none. A call on one text file
leaves all other ones as they are.
-/

namespace Pascal

namespace Host

variable {α : Type} {ρ : World → World → Prop}

/-- What a routine makes of a world is related to that world. -/
def Within (ρ : World → World → Prop) (x : Host α) : Prop := ∀ w, ρ w (after (x w))

/-- A relation that leads from each world on and on is kept by all that routines consist of, if it is by
storing values of basic types. -/
theorem Within.closed (hrefl : ∀ w, ρ w w) (htrans : ∀ {w w' w''}, ρ w w' → ρ w' w'' → ρ w w'')
    (hstore : ∀ (w : World) (r : Ref) f v, (∀ old new, f old = .ok new → new.basic?.isSome) →
      w.store.revised r f = .ok v → ρ w { w with store := w.store.put r.cell v }) :
    Closed (Within ρ) where
  pure _ w := hrefl w
  throw _ w := hrefl w
  bind {α β x f} hx hf w := by
    have hw := hx w
    simp only [Bind.bind, EStateM.bind]
    cases hr : x w with
    | ok a w' =>
      rw [hr] at hw
      exact htrans hw (hf a w')
    | error e w' =>
      rw [hr] at hw
      exact hw
  get r w := by
    change ρ w (after (liftFault (w.store.get r) w))
    cases w.store.get r <;> exact hrefl w
  render _ w := hrefl w
  update r f _ hbasic w := by
    unfold update
    cases hv : w.store.revised r f with
    | ok v => exact hstore w r f v hbasic hv
    | error e => exact hrefl w

end Host

namespace World

variable {w : World} {n n' : Nat}

theorem spares_setFile (w : World) (n : Nat) (f : TextFile) (disk : Disk) :
    w.Spares { w.setFile n f with disk } := .of_store rfl (by simp [setFile])

theorem file_setFile_ne (h : n' ≠ n) (f : TextFile) : (w.setFile n f).file n' = w.file n' := by
  simp [file, setFile, Ne.symm h]

end World

/-- A library routine brings up no file, neither anew nor in storage that did not hold it. -/
def Routine.Spares (r : Routine) : Prop := ∀ args, (r.run args).Within World.Spares

namespace Library

open Host (Within)

theorem spares_pervades : Host.Pervades (Within World.Spares) where
  toClosed := Within.closed World.Spares.refl World.Spares.trans fun _ _ _ _ hbasic h =>
    .revised (fun old new hnew => Value.files_of_basic (hbasic old new hnew)) h
  write text w := by
    unfold Host.write
    cases w.console.writeRefusal <;> exact .of_store rfl rfl
  clearScreen w := by
    unfold Host.clearScreen
    cases w.console.clearRefusal <;> exact .of_store rfl rfl
  onConsole {α read} _ w := by
    unfold Host.onConsole
    cases read w.console.reader <;> exact .of_store rfl rfl
  onFile n change _ w := by
    unfold Host.onFile
    cases change (w.file n) w.disk with
    | ok p => exact w.spares_setFile n p.1 p.2
    | error e => exact .refl w
  fromFile n α read _ w := by
    unfold Host.fromFile
    cases (w.file n).state with
    | reading r =>
      dsimp only
      cases read r <;> exact w.spares_setFile n _ w.disk
    | closed | writing => exact .refl w
  checked w := by
    change w.Spares (Host.after ((if w.cancelled then Host.fail .cancelled else pure () : Host Unit) w))
    split <;> exact .refl w

/-- The routines of the standard libraries bring up no file. -/
theorem standard_spares : ∀ l ∈ standard, ∀ r ∈ l.routines, r.Spares :=
  standard_does spares_pervades

end Library

/-- A call on a text file leaves all other files as they are. -/
theorem FileCall.file_run (call : FileCall) (ops : TextFile.Operations) {n n' : Nat} (h : n' ≠ n)
    (w : World) : (Host.after (call.run ops n w)).file n' = w.file n' := by
  let ρ (w w' : World) : Prop := w'.file n' = w.file n'
  have hclosed : Host.Closed (Host.Within ρ) :=
    Host.Within.closed (fun _ => rfl) (fun h h' => h'.trans h) fun _ _ _ _ _ _ => rfl
  have honFile (change : TextFile → Disk → TextFile.Change) : Host.Within ρ (Host.onFile n change) := by
    intro w
    unfold Host.onFile
    cases change (w.file n) w.disk with
    | ok p => exact World.file_setFile_ne h p.1
    | error e => exact rfl
  have hfromFile {α : Type} (read : Reader.Read α) : Host.Within ρ (Host.fromFile n read) := by
    intro w
    unfold Host.fromFile
    cases (w.file n).state with
    | reading r =>
      dsimp only
      cases read r <;> exact World.file_setFile_ne h _
    | closed | writing => exact rfl
  suffices hcall : Host.Within ρ (call.run ops n) from hcall w
  cases call with
  | assign | rewrite | append | reset | close =>
    exact hclosed.bind (honFile _) fun _ => hclosed.pure none
  | write line args =>
    refine hclosed.bind (hclosed.renderAll args) fun text => ?_
    exact hclosed.bind (honFile _) fun _ => hclosed.pure none
  | read line targets =>
    refine hclosed.bind (hfromFile _) fun _ => ?_
    exact hclosed.bind (hclosed.readValues (fun _ => hfromFile _) targets line) fun _ => hclosed.pure none
  | eof => exact hclosed.bind (hfromFile _) fun _ => hclosed.pure _

end Pascal
