import Pascal.Proofs.Library.Heeds
import Pascal.Proofs.Typing.Build
import Pascal.Proofs.Typing.HasType

/-!
# The routines of the standard libraries

A property of what the routines do with the world that is kept where they do one thing after another holds
of all routines. So they heed a cancellation, and none of them stops as if too many routines of the program
were active.
-/

namespace Pascal

namespace Value

variable {v v' : Value} {n : Int}

theorem isSome_basic_of_integer (h : integer? n = some v) : v.basic?.isSome := by
  simp only [integer?] at h
  split at h <;> cases h
  rfl

theorem isSome_basic_of_long (h : long? n = some v) : v.basic?.isSome := by
  simp only [long?] at h
  split at h <;> cases h
  rfl

theorem orOverflow_eq_ok {o : Option Value} : orOverflow o = .ok v ↔ o = some v := by
  cases o <;> simp [orOverflow]

theorem isSome_basic_of_withOrdinal (h : v.withOrdinal n = .ok v') : v'.basic?.isSome := by
  cases v with
  | integer => exact isSome_basic_of_integer (orOverflow_eq_ok.mp h)
  | long => exact isSome_basic_of_long (orOverflow_eq_ok.mp h)
  | char =>
    have hchar := orOverflow_eq_ok.mp h
    simp only [char?] at hchar
    split at hchar <;> cases hchar
    rfl
  | boolean =>
    have hboolean := orOverflow_eq_ok.mp h
    split_ifs at hboolean <;> cases hboolean <;> rfl
  | _ => cases h

end Value

namespace Host

/-- A property that is kept where a routine reads what is stored, where it stores values of basic types,
and where it does one thing after another. -/
structure Closed (R : ∀ {α : Type}, Host α → Prop) : Prop where
  pure : ∀ {α : Type} (a : α), R (pure a)
  throw : ∀ {α : Type} {e : Refusal}, (∀ f, e = .fault f → f.isReserved = false) →
    R (throw e : Host α)
  bind : ∀ {α β : Type} {x : Host α} {f : α → Host β}, R x → (∀ a, R (f a)) → R (x >>= f)
  get : ∀ r, R (get r)
  render : ∀ v, R (render v)
  update : ∀ (r : Ref) {f : Value → Except Fault Value}, (∀ v, Heedless (f v)) →
    (∀ old new, f old = .ok new → new.basic?.isSome) → R (update r f)

/-- A property of all that the routines of the standard libraries do with the world. -/
structure Pervades (R : ∀ {α : Type}, Host α → Prop) : Prop extends Closed @R where
  write : ∀ text, R (write text)
  clearScreen : R clearScreen
  onConsole : ∀ {α : Type} {read : Reader.Read α}, Reader.Foreign read → R (onConsole read)
  onFile : ∀ (n : Nat) {change : TextFile → Disk → TextFile.Change},
    (∀ f d, Pascal.Foreign (change f d)) → R (onFile n change)
  fromFile : ∀ (n : Nat) {α : Type} {read : Reader.Read α}, Reader.Foreign read → R (fromFile n read)
  checked : R (do if (← EStateM.get).cancelled then fail .cancelled : Host Unit)

theorem Behaves.pervades : Pervades @Behaves where
  pure := .pure
  throw := .throw
  bind := .bind
  get := .get
  render := .render
  update r _ hf _ := .update r hf
  write := .write
  clearScreen := .clearScreen
  onConsole := .onConsole
  onFile := .onFile
  fromFile n _ _ := .fromFile n
  checked := .checked

namespace Closed

open Library

variable {R : ∀ {α : Type}, Host α → Prop} (hR : Closed @R) {α β : Type} {args : List Value}
include hR

theorem fail {f : Fault} (h : f.isReserved = false) : R (Host.fail f : Host α) :=
  hR.throw fun _ he => Refusal.fault.inj he ▸ h

theorem liftFault {r : Except Fault α} (hr : Heedless r) : R (Host.liftFault r) := by
  cases r with
  | ok a => exact hR.pure a
  | error f => exact hR.fail (Fails.error_iff.mp hr)

theorem mapM {g : α → Host β} (hg : ∀ a, R (g a)) (xs : List α) : R (xs.mapM g) := by
  induction xs with
  | nil => exact hR.pure _
  | cons x xs ih =>
    rw [List.mapM_cons]
    exact hR.bind (hg x) fun _ => hR.bind ih fun _ => hR.pure _

/-! ## Arguments and results -/

theorem arg (i : Nat) : R (arg args i) := by
  unfold Library.arg
  split
  · exact hR.pure _
  · exact hR.throw (by simp)

theorem refArg (i : Nat) : R (refArg args i) :=
  hR.bind (hR.arg i) fun v => by
    split
    · exact hR.pure _
    · exact hR.throw (by simp)

theorem ordinalArg (i : Nat) : R (ordinalArg args i) :=
  hR.bind (hR.arg i) fun _ => hR.liftFault (Value.heedless_asOrdinal _)

theorem realArg (i : Nat) : R (realArg args i) :=
  hR.bind (hR.arg i) fun _ => hR.liftFault (Value.heedless_asReal _)

theorem stringArg (i : Nat) : R (stringArg args i) :=
  hR.bind (hR.arg i) fun _ => hR.liftFault (Value.heedless_asString _)

theorem fileArg (i : Nat) : R (fileArg args i) :=
  hR.bind (hR.arg i) fun _ => hR.liftFault (Value.heedless_asText _)

theorem arrayArg : R (arrayArg args) :=
  hR.bind (hR.arg 0) fun v => by
    split
    · exact hR.pure _
    · exact hR.fail (by simp)

theorem renderAll (args : List Value) : R (renderAll args) :=
  hR.bind (hR.mapM hR.render args) fun _ => hR.pure _

theorem refArgs (args : List Value) : R (refArgs args) := hR.mapM hR.refArg _

theorem integerResult (n : Int) : R (integerResult n) := by
  unfold Library.integerResult
  split
  · exact hR.pure _
  · exact hR.fail (by simp)

theorem wholeResult (round : Float → Int) (x : Float) : R (wholeResult round x) := by
  unfold Library.wholeResult
  split
  · exact hR.fail (by simp)
  · split
    · exact hR.pure _
    · exact hR.fail (by simp)

theorem orOverflow (operation : String) (v : Option Value) : R (orOverflow operation v) := by
  cases v
  · exact hR.fail (by simp)
  · exact hR.pure _

/-! ## Reading -/

section Reading

open Reader (foreign_word foreign_rest foreign_char foreign_finishLine)

variable {source : Source} (hs : ∀ {α : Type} {read : Reader.Read α}, Reader.Foreign read →
  R (source α read)) {next : Value → Host α} (hnext : ∀ v, v.basic?.isSome → R (next v))
include hs

section

include hnext

theorem fromWord {expected : String} {parse : String → Option Value}
    (hparse : ∀ word v, parse word = some v → v.basic?.isSome) :
    R (fromWord source expected parse >>= next) := by
  rw [Library.fromWord, bind_assoc]
  refine hR.bind (hs foreign_word) fun word => ?_
  cases hv : parse word with
  | some v => exact hnext v (hparse word v hv)
  | none => exact hR.fail (by simp)

/-- A value that is read is of a basic type, since no other ones can be read. -/
theorem readLike (old : Value) : R (readLike source old >>= next) := by
  unfold Library.readLike
  split
  · rw [bind_assoc]
    exact hR.bind (hs foreign_rest) fun s => hnext (.string s) rfl
  · rw [bind_assoc]
    exact hR.bind (hs foreign_char) fun c => hnext (.char c) rfl
  · refine hR.fromWord hs hnext fun word v hv => ?_
    obtain ⟨n, -, hv⟩ := Option.bind_eq_some_iff.mp hv
    exact Value.isSome_basic_of_integer hv
  · refine hR.fromWord hs hnext fun word v hv => ?_
    obtain ⟨n, -, hv⟩ := Option.bind_eq_some_iff.mp hv
    exact Value.isSome_basic_of_long hv
  · refine hR.fromWord hs hnext fun word v hv => ?_
    obtain ⟨x, -, rfl⟩ := Option.map_eq_some_iff.mp hv
    rfl
  · refine hR.fromWord hs hnext fun word v hv => ?_
    simp only [boolean?] at hv
    split_ifs at hv <;> cases hv <;> rfl
  · exact hR.fail (by simp)

end

theorem readValues (targets : List Ref) (line : Bool) : R (readValues source targets line) := by
  have hend : R (do if line then source _ Reader.finishLine) := by
    split
    · exact hs foreign_finishLine
    · exact hR.pure _
  unfold Library.readValues
  refine hR.bind ?_ fun _ => hend
  induction targets with
  | nil => exact hR.pure _
  | cons target targets ih =>
    rw [List.forIn_cons]
    refine hR.bind ?_ fun next => ?_
    · refine hR.bind (hR.get _) fun old => hR.readLike hs (fun v hv => ?_) old
      refine hR.bind (hR.update _ (fun _ => .ok _) fun _ new hnew => ?_) fun _ => hR.pure _
      cases hnew
      exact hv
    · cases next with
      | done => exact hR.pure _
      | yield => exact ih

end Reading

end Closed

end Host

/-- A library routine heeds a cancellation. -/
def Routine.Heeds (r : Routine) : Prop := ∀ args, (r.run args).Heeds

/-- A library routine does not stop as if too many routines of the program were active. -/
def Routine.Shallow (r : Routine) : Prop :=
  ∀ args w w' f, r.run args w = .error (.fault f) w' → f.isOverflow = false

namespace Library

variable {R : ∀ {α : Type}, Host α → Prop} (hR : Host.Pervades @R)

/-- What a library routine does has a property. -/
def Does (R : ∀ {α : Type}, Host α → Prop) (r : Routine) : Prop := ∀ args, R (r.run args)

section

include hR

theorem procedure_does {name : String} {params : List Parameter} {run : List Value → Host Unit}
    (h : ∀ args, R (run args)) : Does @R (procedure name params run) :=
  fun args => hR.bind (h args) fun _ => hR.pure _

theorem function_does {name : String} {params : List Parameter} {result : Ty}
    {run : List Value → Host Value} (h : ∀ args, R (run args)) :
    Does @R (function name params result run) :=
  fun args => hR.bind (h args) fun _ => hR.pure _

theorem inputOutput_does : ∀ r ∈ inputOutput, Does @R r := by
  have hwrite : ∀ ending args, R (writeTo ending args) := fun _ args =>
    hR.bind (hR.renderAll args) fun _ => hR.write _
  have hwriteFile : ∀ ending args, R (writeToFile ending args) := fun _ args =>
    hR.bind (hR.renderAll _) fun _ => hR.bind (hR.fileArg 0) fun _ => hR.onFile _ fun f d =>
      f.foreign_write _ d
  have hread : ∀ line args, R (readFrom line args) := fun line args =>
    hR.bind (hR.refArgs args) fun _ => hR.readValues hR.onConsole _ _
  have hreadFile : ∀ line args, R (readFromFile line args) := fun line args =>
    hR.bind (hR.refArgs _) fun _ => hR.bind (hR.fileArg 0) fun n =>
      hR.bind (hR.fromFile n (Reader.foreign_pure ())) fun _ => hR.readValues (hR.fromFile n) _ _
  have hchange : ∀ change, (∀ f d, Foreign (change f d)) → ∀ args, R (onFileArg change args) :=
    fun change h args => hR.bind (hR.fileArg 0) fun _ => hR.onFile _ h
  simp only [inputOutput, List.forall_mem_cons, List.not_mem_nil, false_imp_iff, implies_true,
    and_true]
  exact ⟨procedure_does hR (hwrite _), procedure_does hR (hwrite _), procedure_does hR (hwriteFile _),
    procedure_does hR (hwriteFile _), procedure_does hR (hread _), procedure_does hR (hread _),
    procedure_does hR (hreadFile _), procedure_does hR (hreadFile _),
    function_does hR fun _ => hR.bind (hR.onConsole Reader.foreign_atEnd) fun _ => hR.pure _,
    function_does hR fun _ => hR.bind (hR.fileArg 0) fun _ =>
      hR.bind (hR.fromFile _ Reader.foreign_atEnd) fun _ => hR.pure _,
    procedure_does hR fun _ => hR.bind (hR.stringArg 1) fun _ => hR.bind (hR.fileArg 0) fun _ =>
      hR.onFile _ fun _ _ => .ok _,
    procedure_does hR (hchange _ TextFile.foreign_startOver),
    procedure_does hR (hchange _ TextFile.foreign_reset),
    procedure_does hR (hchange _ TextFile.foreign_append),
    procedure_does hR (hchange _ TextFile.foreign_close)⟩

omit hR in
theorem shifted_heedless (v : Value) (delta : Int) : Heedless (shifted v delta) :=
  v.heedless_asOrdinal.bind fun _ => v.heedless_withOrdinal _

theorem stepInPlace_does (sign : Int) (args : List Value) : R (stepInPlace sign args) := by
  have hstep : ∀ amount : Int, R (do
      if !Value.fitsLong (amount * sign) then Host.fail (.overflow "ordinal")
      else Host.update (← refArg args 0) fun v => shifted v (amount * sign)) := by
    intro amount
    split
    · exact hR.fail (by simp)
    · refine hR.bind (hR.refArg 0) fun _ => hR.update _ (fun _ => shifted_heedless _ _) ?_
      intro old new hnew
      obtain ⟨n, -, hnew⟩ := bind_eq_ok.mp hnew
      exact Value.isSome_basic_of_withOrdinal hnew
  unfold stepInPlace
  split
  · exact hR.bind (hR.liftFault (Value.heedless_asOrdinal _)) hstep
  · exact hR.bind (hR.pure _) hstep

theorem ordinals_does : ∀ r ∈ ordinals, Does @R r := by
  have hneighbour : ∀ name delta, ∀ r ∈ neighbourRoutines name delta, Does @R r := by
    intro name delta r hr
    obtain ⟨ty, -, rfl⟩ := List.mem_map.mp hr
    exact function_does hR fun args => hR.bind (hR.arg 0) fun _ => hR.liftFault (shifted_heedless _ _)
  have hstep : ∀ name sign, ∀ r ∈ stepRoutines name sign, Does @R r := by
    intro name sign
    simp only [stepRoutines, List.forall_mem_cons, List.not_mem_nil, false_imp_iff, implies_true,
      and_true]
    exact ⟨procedure_does hR (stepInPlace_does hR _), procedure_does hR (stepInPlace_does hR _),
      procedure_does hR (stepInPlace_does hR _), procedure_does hR (stepInPlace_does hR _),
      procedure_does hR (stepInPlace_does hR _), procedure_does hR (stepInPlace_does hR _)⟩
  have hordinal : ∀ args, R (ordinalResult args) := fun args =>
    hR.bind (hR.ordinalArg 0) fun _ => hR.integerResult _
  have hchr : ∀ args, R (chr args) := fun args => hR.bind (hR.ordinalArg 0) fun _ => by
    split
    · exact hR.pure _
    · exact hR.fail (by simp)
  simp only [ordinals, List.forall_mem_append, List.forall_mem_cons, List.not_mem_nil,
    false_imp_iff, implies_true, and_true]
  exact ⟨⟨⟨⟨⟨⟨function_does hR fun _ => hR.bind (hR.stringArg 0) fun _ => hR.integerResult _,
    function_does hR fun _ => hR.bind hR.arrayArg fun _ => hR.integerResult _,
    function_does hR fun _ => hR.bind hR.arrayArg fun _ => hR.integerResult _,
    function_does hR fun _ => hR.bind hR.arrayArg fun _ => hR.integerResult _,
    function_does hR fun _ => hR.bind (hR.arg 0) fun _ => hR.integerResult _,
    function_does hR hordinal, function_does hR hordinal, function_does hR hordinal,
    function_does hR fun _ => hR.bind (hR.ordinalArg 0) fun _ => hR.pure _,
    function_does hR hchr⟩, hneighbour _ _⟩, hneighbour _ _⟩,
    function_does hR fun _ => hR.bind (hR.ordinalArg 0) fun _ => hR.pure _⟩, hstep _ _⟩, hstep _ _⟩

theorem numbers_does : ∀ r ∈ numbers, Does @R r := by
  have hnumber : ∀ name (run : List Value → Host Value), (∀ args, R (run args)) →
      ∀ r ∈ numberRoutines name run, Does @R r := by
    intro name run h r hr
    obtain ⟨ty, -, rfl⟩ := List.mem_map.mp hr
    exact function_does hR h
  have habs : ∀ args, R (abs args) := fun args => hR.bind (hR.arg 0) fun _ => by
    split
    · exact hR.orOverflow _ _
    · exact hR.orOverflow _ _
    · exact hR.bind (hR.liftFault (Value.heedless_asReal _)) fun _ => hR.pure _
  have hsqr : ∀ args, R (sqr args) := fun args => hR.bind (hR.arg 0) fun _ => by
    split
    · exact hR.orOverflow _ _
    · exact hR.orOverflow _ _
    · exact hR.bind (hR.liftFault (Value.heedless_asReal _)) fun _ => hR.pure _
  simp only [numbers, List.forall_mem_append, List.forall_mem_cons, List.not_mem_nil,
    false_imp_iff, implies_true, and_true]
  exact ⟨⟨hnumber _ _ habs, hnumber _ _ hsqr⟩,
    function_does hR fun _ => hR.bind (hR.realArg 0) fun _ => hR.pure _,
    function_does hR fun _ => hR.bind (hR.realArg 0) fun _ => hR.wholeResult _ _,
    function_does hR fun _ => hR.bind (hR.realArg 0) fun _ => hR.wholeResult _ _⟩

theorem strings_does : ∀ r ∈ strings, Does @R r := by
  have hstrToInt : ∀ args, R (strToInt args) := fun args => hR.bind (hR.stringArg 0) fun _ => by
    split
    · exact hR.pure _
    · exact hR.fail (by simp)
  simp only [strings, List.forall_mem_cons, List.not_mem_nil, false_imp_iff, implies_true, and_true]
  exact ⟨function_does hR fun _ => hR.bind (hR.ordinalArg 0) fun _ => hR.pure _,
    function_does hR hstrToInt,
    function_does hR fun _ => hR.bind (hR.arg 0) fun _ =>
      hR.bind (hR.liftFault (Value.heedless_asChar _)) fun _ => hR.pure _,
    function_does hR fun _ => hR.bind (hR.stringArg 0) fun _ => hR.pure _,
    function_does hR fun _ => hR.bind (hR.stringArg 0) fun _ => hR.bind (hR.ordinalArg 1) fun _ =>
      hR.bind (hR.ordinalArg 2) fun _ => hR.pure _,
    function_does hR fun _ => hR.bind (hR.stringArg 0) fun _ => hR.bind (hR.stringArg 1) fun _ => by
      split <;> exact hR.integerResult _,
    function_does hR fun args => hR.bind (hR.renderAll args) fun _ => hR.pure _⟩

theorem math_does : ∀ r ∈ math.routines, Does @R r := by
  have hreal : ∀ name f, Does @R (real name f) := fun name f =>
    function_does hR fun _ => hR.bind (hR.realArg 0) fun _ => hR.pure _
  have hpick : ∀ name relation, ∀ r ∈ pickRoutines name relation, Does @R r := by
    intro name relation r hr
    obtain ⟨ty, -, rfl⟩ := List.mem_map.mp hr
    exact function_does hR fun _ => hR.bind (hR.arg 0) fun _ => hR.bind (hR.arg 1) fun _ =>
      hR.bind (hR.liftFault ((Value.heedless_binary _ _ _).bind Value.heedless_asBool)) fun _ =>
        hR.pure _
  simp only [math, List.forall_mem_append, List.forall_mem_cons, List.not_mem_nil, false_imp_iff,
    implies_true, and_true]
  exact ⟨⟨⟨hreal _ _, hreal _ _, hreal _ _, hreal _ _, hreal _ _, hreal _ _, hreal _ _, hreal _ _,
    function_does hR fun _ => hR.bind (hR.realArg 0) fun _ => hR.bind (hR.realArg 1) fun _ => hR.pure _,
    function_does hR fun _ => hR.bind (hR.realArg 0) fun _ => hR.wholeResult _ _,
    function_does hR fun _ => hR.bind (hR.realArg 0) fun _ => hR.wholeResult _ _⟩, hpick _ _⟩,
    hpick _ _⟩

theorem crt_does : ∀ r ∈ crt.routines, Does @R r := by
  have hdelay : ∀ args, R (delay args) := fun args =>
    hR.bind (hR.ordinalArg 0) fun _ => hR.checked
  simp only [crt, List.forall_mem_cons, List.not_mem_nil, false_imp_iff, implies_true, and_true]
  exact ⟨procedure_does hR fun _ => hR.clearScreen, procedure_does hR hdelay⟩

/-- What the routines of the standard libraries do has each property that pervades it. -/
theorem standard_does : ∀ l ∈ standard, ∀ r ∈ l.routines, Does @R r := by
  simp only [standard, List.forall_mem_cons, List.not_mem_nil, false_imp_iff, implies_true,
    and_true]
  refine ⟨?_, math_does hR, crt_does hR⟩
  simp only [system, List.forall_mem_append]
  exact ⟨⟨⟨inputOutput_does hR, ordinals_does hR⟩, numbers_does hR⟩, strings_does hR⟩

end

/-- All routines of the standard libraries heed a cancellation. -/
theorem standard_heeds : ∀ l ∈ standard, ∀ r ∈ l.routines, r.Heeds :=
  fun l hl r hr args => (standard_does Host.Behaves.pervades l hl r hr args).toHeeds

/-- No routine of the standard libraries stops as if too many routines of a program were active. -/
theorem standard_shallow : ∀ l ∈ standard, ∀ r ∈ l.routines, r.Shallow :=
  fun l hl r hr args => (standard_does Host.Behaves.pervades l hl r hr args).shallow

end Library

/-! ## Routines that do not cancel the run -/

/-- What a library routine does leaves a run that has not been cancelled as it is. -/
def Host.Quiet {α : Type} (x : Host α) : Prop :=
  ∀ w : World, w.cancelled = false → match x w with
    | .ok _ w' | .error _ w' => w'.cancelled = false

/-- A library routine does not cancel the run. -/
def Routine.Quiet (r : Routine) : Prop := ∀ args, (r.run args).Quiet

theorem Host.Heeds.toQuiet {α : Type} {x : Host α} (h : x.Heeds) : x.Quiet := by
  intro w hw
  have hquiet := h.quiet w hw
  cases he : x w <;> rw [he] at hquiet <;> exact hquiet

/-- No routine of the standard libraries cancels a run. -/
theorem Library.standard_quiet : ∀ l ∈ standard, ∀ r ∈ l.routines, r.Quiet :=
  fun l hl r hr args => (standard_heeds l hl r hr args).toQuiet

end Pascal
