import Pascal.Library.System
import Pascal.Proofs.Library.Unbuffered
import Pascal.Proofs.Simulation

/-!
# Calls on a text file

Whatever is called on a text file, a run with a buffer goes beside a run without one: the worlds differ in
the file and the disk alone, and what is kept back is what the disks differ in.
-/

namespace Pascal

open Disk (Same)

/-- A call of a library routine on a text file. -/
inductive FileCall where
  | assign (name : String)
  | rewrite | append | reset | close
  | write (line : Bool) (args : List Value)
  | read (line : Bool) (targets : List Ref)
  | eof

namespace FileCall

/-- What a call does to the file with a number, given what is done with files. -/
def run (ops : TextFile.Operations) (n : Nat) : FileCall → Host (Option Value)
  | assign name => do Host.onFile n fun f d => ops.assign f name d; return none
  | rewrite => do Host.onFile n ops.rewrite; return none
  | append => do Host.onFile n ops.append; return none
  | reset => do Host.onFile n ops.reset; return none
  | close => do Host.onFile n ops.close; return none
  | write line args => do
    let text := (← Library.renderAll args) ++ if line then "\n" else ""
    Host.onFile n fun f d => ops.write f text d
    return none
  | read line targets => do
    Host.fromFile n (pure ())
    Library.readValues (Library.textFile n) targets line
    return none
  | eof => return some (.boolean (← Host.fromFile n Reader.atEnd))

/-- Whether a call opens the file so that what it holds then matters: to write it anew, or to read it. -/
def opensAfresh : FileCall → Bool
  | rewrite | reset => true
  | _ => false

def name : FileCall → String
  | assign _ => "assign"
  | rewrite => "rewrite"
  | append => "append"
  | reset => "reset"
  | close => "close"
  | write line _ => if line then "writeln" else "write"
  | read line _ => if line then "readln" else "read"
  | eof => "eof"

def args (n : Nat) : FileCall → List Value
  | assign name => [.text n, .string name]
  | write _ args => .text n :: args
  | read _ targets => .text n :: targets.map fun r => .pointer (some r)
  | _ => [.text n]

theorem refArgs_pointers (targets : List Ref) :
    Library.refArgs (targets.map fun r => .pointer (some r)) = pure targets := by
  have hfrom (before : List Value) : (List.range' before.length targets.length).mapM
      (Library.refArg (before ++ targets.map fun r => .pointer (some r))) = pure targets := by
    induction targets generalizing before with
    | nil => rfl
    | cons r targets ih =>
      have hfirst : Library.refArg (before ++ (r :: targets).map fun r => .pointer (some r)) before.length =
          pure r := by
        simp [Library.refArg, Library.arg]
      have hrest := ih (before ++ [.pointer (some r)])
      rw [List.length_cons, List.range'_succ, List.mapM_cons, hfirst, pure_bind]
      rw [List.length_append, List.append_assoc] at hrest
      rw [show (List.map _ (r :: targets)) = [.pointer (some r)] ++ targets.map _ from rfl]
      rw [show before.length + 1 = before.length + [Value.pointer (some r)].length from rfl, hrest]
      rfl
  rw [Library.refArgs, List.length_map, List.range_eq_range']
  exact hfrom []

/-- A call does what a routine of the standard library does with the file as its first argument. -/
theorem exists_routine (call : FileCall) (n : Nat) : ∃ r ∈ Library.system.routines,
    r.name = call.name ∧ r.signature.params.head? = some Library.fileParam ∧
    r.run (call.args n) = call.run .buffered n := by
  suffices h : ∃ (k : Nat) (r : Routine), Library.inputOutput[k]? = some r ∧ r.name = call.name ∧
      r.signature.params.head? = some Library.fileParam ∧ r.run (call.args n) = call.run .buffered n by
    obtain ⟨k, r, hr, hname, hparam, hrun⟩ := h
    refine ⟨r, ?_, hname, hparam, hrun⟩
    simp only [Library.system, List.mem_append]
    exact .inl (.inl (.inl (List.mem_of_getElem? hr)))
  have hfile (args : List Value) : Library.fileArg (.text n :: args) 0 = pure n := rfl
  cases call with
  | assign name => exact ⟨10, _, rfl, rfl, rfl, rfl⟩
  | rewrite => exact ⟨11, _, rfl, rfl, rfl, rfl⟩
  | append => exact ⟨13, _, rfl, rfl, rfl, rfl⟩
  | reset => exact ⟨12, _, rfl, rfl, rfl, rfl⟩
  | close => exact ⟨14, _, rfl, rfl, rfl, rfl⟩
  | eof =>
    refine ⟨9, _, rfl, rfl, rfl, ?_⟩
    simp [Library.function, args, run, hfile]
  | write line args =>
    cases line with
    | false =>
      refine ⟨2, _, rfl, rfl, rfl, ?_⟩
      simp [Library.procedure, Library.writeToFile, FileCall.args, run, hfile, TextFile.Operations.buffered]
    | true =>
      refine ⟨3, _, rfl, rfl, rfl, ?_⟩
      simp [Library.procedure, Library.writeToFile, FileCall.args, run, hfile, TextFile.Operations.buffered]
  | read line targets =>
    cases line with
    | false =>
      refine ⟨6, _, rfl, rfl, rfl, ?_⟩
      simp [Library.procedure, Library.readFromFile, FileCall.args, run, hfile, refArgs_pointers]
    | true =>
      refine ⟨7, _, rfl, rfl, rfl, ?_⟩
      simp [Library.procedure, Library.readFromFile, FileCall.args, run, hfile, refArgs_pointers]

end FileCall

namespace World

/-- Two worlds that differ in the file with a number and in the disk only. -/
inductive Mirrors (n : Nat) (w : World) : World → Prop
  | intro {g : TextFile} {e : Disk} (hn : n < w.files.size) (h : (w.file n).Mirrors w.disk g e) :
    Mirrors n w { w.setFile n g with disk := e }

variable {n : Nat} {w v : World}

theorem file_setFile (h : n < w.files.size) (f : TextFile) : (w.setFile n f).file n = f := by
  simp [file, setFile, h]

namespace Mirrors

theorem file (h : w.Mirrors n v) : (w.file n).Mirrors w.disk (v.file n) v.disk := by
  obtain ⟨hn, hfile⟩ := h
  have hg (g : TextFile) (e : Disk) : ({ w.setFile n g with disk := e } : World).file n = g :=
    file_setFile hn g
  rw [hg]
  exact hfile

theorem store (h : w.Mirrors n v) : v.store = w.store := by cases h; rfl

theorem console (h : w.Mirrors n v) : v.console = w.console := by cases h; rfl

theorem withStore (h : w.Mirrors n v) (store : Store) :
    Mirrors n { w with store } { v with store } := by
  obtain ⟨hn, hfile⟩ := h
  exact .intro (w := { w with store }) hn hfile

/-- A new file is not open. -/
theorem newFile (w : World) : Mirrors w.newFile.1 w.newFile.2 w.newFile.2 := by
  have hn : w.files.size < w.newFile.2.files.size := by simp [World.newFile]
  have hfile : w.newFile.2.file w.files.size = {} := by simp [World.newFile, World.file]
  have hclosed : (w.newFile.2.file w.files.size).Mirrors w.disk {} w.disk :=
    hfile ▸ .closed none (.refl w.disk)
  have hself : w.newFile.2.setFile w.files.size {} = w.newFile.2 := by
    simp [World.newFile, setFile, Array.setIfInBounds, Array.set_push]
  have hmirrors := Mirrors.intro hn hclosed
  rwa [hself] at hmirrors

/-- What both make of the file and the disk takes the place of what they were. -/
theorem change (h : w.Mirrors n v) {f g : TextFile} {d e : Disk} (hchange : f.Mirrors d g e) :
    Mirrors n { w.setFile n f with disk := d } { v.setFile n g with disk := e } := by
  obtain @⟨g', e', hn, -⟩ := h
  have hfile : ({ w.setFile n f with disk := d } : World).file n = f := file_setFile hn f
  have hthere : n < ({ w.setFile n f with disk := d } : World).files.size := by
    simpa [setFile] using hn
  have hboth := Mirrors.intro hthere (hfile.symm ▸ hchange)
  have hg : ({ ({ w.setFile n g' with disk := e' } : World).setFile n g with disk := e } : World) =
      { ({ w.setFile n f with disk := d } : World).setFile n g with disk := e } := by
    simp [setFile]
  rw [hg]
  exact hboth

end Mirrors

end World

section

variable {n : Nat} {w v : World} {α : Type}

namespace Host

open World (Mirrors)

theorem onFile_agree (h : w.Mirrors n v) {change change' : TextFile → Disk → TextFile.Change}
    (hchange : TextFile.Alike (change (w.file n) w.disk) (change' (v.file n) v.disk)) :
    Agree (Mirrors n) (onFile n change w) (onFile n change' v) := by
  unfold onFile
  generalize change (w.file n) w.disk = x at hchange ⊢
  generalize change' (v.file n) v.disk = y at hchange ⊢
  cases hchange with
  | ok hfile => exact .ok (h.change hfile)
  | error fault => exact .error h

theorem fromFile_refines (read : Reader.Read α) :
    Refines (Mirrors n) (fromFile n read) (fromFile n read) := by
  intro w v h
  have hfile := h.file
  unfold fromFile
  generalize hf : w.file n = f at hfile ⊢
  generalize hg : v.file n = g at hfile ⊢
  generalize hd : w.disk = d at hfile
  cases hfile with
  | closed => exact .error h
  | writing => exact .error h
  | reading name r hsame =>
    have hnext (r : Reader) : Mirrors n (w.setFile n ⟨name, .reading r⟩) (v.setFile n ⟨name, .reading r⟩) :=
      h.change (.reading name r (hd ▸ hsame))
    simp only
    cases read r with
    | ok a r => exact .ok (hnext r)
    | error fault r => exact .error (hnext r)

theorem liftFault_refines (r : Except Fault α) :
    Refines (Mirrors n) (liftFault r) (liftFault r) := by
  cases r with
  | ok a => exact .pure a
  | error f => exact .throw _

theorem get_refines (r : Ref) : Refines (Mirrors n) (get r) (get r) := by
  intro w v h
  show Agree _ (liftFault (w.store.get r) w) (liftFault (v.store.get r) v)
  rw [h.store]
  exact liftFault_refines _ w v h

theorem set_refines (r : Ref) (a : Value) : Refines (Mirrors n) (set r a) (set r a) := by
  intro w v h
  simp only [set, update, h.store]
  split
  · exact .ok (h.withStore _)
  · exact .error h

theorem render_refines (a : Value) : Refines (Mirrors n) (render a) (render a) := by
  intro w v h
  have hrender : v.render a = w.render a := by rw [World.render, World.render, h.store]
  show Agree _ (.ok (w.render a) w) (.ok (v.render a) v)
  rw [hrender]
  exact .ok h

end Host

namespace Library

open World (Mirrors)

theorem renderAll_refines (args : List Value) :
    Refines (Mirrors n) (renderAll args) (renderAll args) := by
  have hall : Refines (Mirrors n) (args.mapM Host.render) (args.mapM Host.render) := by
    induction args with
    | nil => exact .pure _
    | cons a args ih =>
      rw [List.mapM_cons]
      exact (Host.render_refines a).bind fun _ => ih.bind fun _ => .pure _
  exact hall.bind fun _ => .pure _

theorem fromWord_refines (expected : String) (parse : String → Option Value) :
    Refines (Mirrors n) (fromWord (textFile n) expected parse) (fromWord (textFile n) expected parse) :=
  (Host.fromFile_refines Reader.word).bind fun word => by
    cases parse word with
    | some a => exact .pure a
    | none => exact .throw _

theorem readLike_refines (old : Value) :
    Refines (Mirrors n) (readLike (textFile n) old) (readLike (textFile n) old) := by
  cases old with
  | string => exact (Host.fromFile_refines _).bind fun _ => .pure _
  | char => exact (Host.fromFile_refines _).bind fun _ => .pure _
  | integer => exact fromWord_refines _ _
  | long => exact fromWord_refines _ _
  | double => exact fromWord_refines _ _
  | boolean => exact fromWord_refines _ _
  | array => exact .throw _
  | pointer => exact .throw _
  | text => exact .throw _

theorem readValues_refines (targets : List Ref) (line : Bool) :
    Refines (Mirrors n) (readValues (textFile n) targets line) (readValues (textFile n) targets line) := by
  have hend : Refines (Mirrors n) (do if line then Host.fromFile n Reader.finishLine)
      (do if line then Host.fromFile n Reader.finishLine) := by
    split
    · exact Host.fromFile_refines _
    · exact .pure _
  unfold readValues
  refine Refines.bind ?_ fun _ => hend
  induction targets with
  | nil => exact .pure _
  | cons target targets ih =>
    rw [List.forIn_cons]
    refine Refines.bind ?_ fun next => ?_
    · refine (Host.get_refines _).bind fun old => (readLike_refines old).bind fun a => ?_
      exact (Host.set_refines _ a).bind fun _ => .pure _
    · cases next with
      | done => exact .pure _
      | yield => exact ih

end Library

namespace FileCall

open World (Mirrors)

/-- A call goes the same way with and without a buffer, unless it opens the file from its start or for
reading while something is kept back. -/
theorem run_agree (call : FileCall) (h : w.Mirrors n v)
    (hclean : call.opensAfresh → (w.file n).isDirty = false) :
    Agree (Mirrors n) (call.run .buffered n w) (call.run .unbuffered n v) := by
  have hdone : Refines (Mirrors n) (pure none : Host (Option Value)) (pure none) := .pure none
  cases call with
  | assign name => exact (Host.onFile_agree h (h.file.assign name)).bind fun _ => hdone
  | rewrite => exact (Host.onFile_agree h (h.file.rewrite (hclean rfl))).bind fun _ => hdone
  | append => exact (Host.onFile_agree h h.file.append).bind fun _ => hdone
  | reset => exact (Host.onFile_agree h (h.file.reset (hclean rfl))).bind fun _ => hdone
  | close => exact (Host.onFile_agree h h.file.close).bind fun _ => hdone
  | write line args =>
    refine (Library.renderAll_refines args w v h).bind fun text w v h => ?_
    exact (Host.onFile_agree h (h.file.write _)).bind fun _ => hdone
  | read line targets =>
    refine (Host.fromFile_refines _ w v h).bind fun _ => ?_
    exact (Library.readValues_refines targets line).bind fun _ => hdone
  | eof => exact (Host.fromFile_refines _ w v h).bind fun _ => .pure _

/-- What is written for arguments. -/
def rendered (store : Store) (line : Bool) (args : List Value) : String :=
  String.join (args.map store.render) ++ if line then "\n" else ""

theorem renderAll_eq (args : List Value) (w : World) :
    Library.renderAll args w = .ok (String.join (args.map w.store.render)) w := by
  have hall : args.mapM Host.render w = .ok (args.map w.store.render) w := by
    induction args with
    | nil => rfl
    | cons a args ih =>
      rw [List.mapM_cons]
      show EStateM.bind (Host.render a) _ w = _
      simp only [EStateM.bind, show Host.render a w = .ok (w.store.render a) w from rfl, Bind.bind, ih]
      rfl
  show EStateM.bind (args.mapM Host.render) _ w = _
  rw [EStateM.bind, hall]
  rfl

/-- Texts that are written one after the other are all in the file then, in their order. -/
theorem inTurn_writes (hn : n < w.files.size) {name text : String}
    (h : (w.file n).Holds w.disk name text) (texts : List (Bool × List Value)) :
    let last := (inTurn (run .unbuffered n) (texts.map fun t => .write t.1 t.2) w).2
    n < last.files.size ∧ (last.file n).Holds last.disk name
      (text ++ String.join (texts.map fun t => rendered w.store t.1 t.2)) := by
  induction texts generalizing w text with
  | nil => simpa [inTurn, String.join] using ⟨hn, h⟩
  | cons t texts ih =>
    obtain ⟨e, hwrite, hholds⟩ := h.write (rendered w.store t.1 t.2)
    have hrun : run .unbuffered n (.write t.1 t.2) w =
        .ok none { w.setFile n (w.file n) with disk := e } := by
      rw [rendered] at hwrite
      simp only [run, Bind.bind, EStateM.bind, renderAll_eq, Host.onFile, hwrite]
      rfl
    have hfile : ({ w.setFile n (w.file n) with disk := e } : World).file n = w.file n :=
      World.file_setFile hn _
    have hrest := ih (w := { w.setFile n (w.file n) with disk := e }) (by simpa [World.setFile] using hn)
      (hfile.symm ▸ hholds)
    rw [show (w.setFile n (w.file n)).store = w.store from rfl] at hrest
    rw [List.map_cons, List.map_cons, inTurn, hrun]
    simpa [String.join_cons, String.append_assoc] using hrest

/-- A change of the file that succeeds shows in the file and in the disk. -/
theorem onFile_eq_ok (hn : n < w.files.size) {change : TextFile → Disk → TextFile.Change}
    (h : (do Host.onFile n change; return none : Host (Option Value)) w = .ok none v) :
    n < v.files.size ∧ change (w.file n) w.disk = .ok (v.file n, v.disk) := by
  simp only [Bind.bind, EStateM.bind, Host.onFile] at h
  cases hchange : change (w.file n) w.disk with
  | error fault => rw [hchange] at h; cases h
  | ok changed =>
    obtain ⟨f, d⟩ := changed
    rw [hchange] at h
    cases h
    have hfile : ({ w.setFile n f with disk := d } : World).file n = f := World.file_setFile hn f
    exact ⟨by simpa [World.setFile] using hn, by rw [hfile]⟩

/-- Without a buffer, a text file that was opened for writing, written to and closed holds what was
written: after the text that it held before, if it was opened at its end. -/
theorem readText_written (hn : n < w.files.size) {name text : String} (hname : (w.file n).name = some name)
    {opening : FileCall} (hopening : opening = .rewrite ∧ text = "" ∨ opening = .append ∧
      (w.disk.readText name = .ok text ∨ w.disk.readText name = .error .notFound ∧ text = ""))
    (hopened : opening.run .unbuffered n w = .ok none v) (texts : List (Bool × List Value)) :
    (inTurn (run .unbuffered n) ((texts.map fun t => .write t.1 t.2) ++ [.close]) v).2.disk.readText name =
      .ok (text ++ String.join (texts.map fun t => rendered v.store t.1 t.2)) := by
  have hstart : n < v.files.size ∧ (v.file n).Holds v.disk name text := by
    rcases hopening with ⟨rfl, rfl⟩ | ⟨rfl, hold⟩
    · obtain ⟨hv, hrewrite⟩ := onFile_eq_ok hn hopened
      exact ⟨hv, .of_rewrite hname hrewrite⟩
    · obtain ⟨hv, happend⟩ := onFile_eq_ok hn hopened
      exact ⟨hv, .of_append hname hold happend⟩
  obtain ⟨-, hholds⟩ := inTurn_writes hstart.1 hstart.2 texts
  rw [inTurn_append]
  generalize (inTurn (run .unbuffered n) (texts.map fun t => .write t.1 t.2) v).2 = last at hholds
  have hclose : ∃ f, run .unbuffered n .close last = .ok none (last.setFile n f) := by
    obtain ⟨w, hwriting, -⟩ := hholds.writing
    refine ⟨(last.file n).closed, ?_⟩
    simp only [run, Bind.bind, EStateM.bind, Host.onFile, TextFile.Operations.unbuffered, hwriting]
    rfl
  obtain ⟨f, hclose⟩ := hclose
  simp only [inTurn, hclose]
  exact hholds.readText

/-- Calls on a new text file, one after the other. -/
def onNewFile (ops : TextFile.Operations) (calls : List FileCall) (w : World) :
    List (Except Refusal (Option Value)) × World :=
  inTurn (run ops w.newFile.1) calls w.newFile.2

/-- Whatever calls are made on a new text file, in whatever order, they have the results and read the
values that they would have and read if every text went to its file at once and an open file was closed
before it is opened again. So does the disk hold the same, once what is kept back is delivered, and at
once while nothing is kept back. Where the file is opened from its start or for reading, it must not keep
anything back. -/
theorem onNewFile_unbuffered (start : World) (calls : List FileCall)
    (hclean : ∀ k (hk : k < calls.length), calls[k].opensAfresh →
      ((onNewFile .buffered (calls.take k) start).2.file start.newFile.1).isDirty = false) :
    let last := (onNewFile .buffered calls start).2
    let file := last.file start.newFile.1
    let direct := (onNewFile .unbuffered calls start).2
    (onNewFile .buffered calls start).1 = (onNewFile .unbuffered calls start).1 ∧
    last.store = direct.store ∧ last.console = direct.console ∧
    Same (file.release last.disk) direct.disk ∧ (file.isDirty = false → Same last.disk direct.disk) := by
  obtain ⟨hresults, hlast⟩ :=
    inTurn_agree (fun call _ _ h hclean => run_agree call h hclean) hclean (.newFile start)
  exact ⟨hresults, hlast.store.symm, hlast.console.symm, hlast.file.release, hlast.file.same⟩

/-- A file that is written, added to, closed, and read back. -/
theorem onNewFile_unbuffered_readBack :
    let start : World := { store := ⟨#[some (.string "")]⟩, console := .ofInput "" }
    let calls : List FileCall := [.assign "out.txt", .rewrite, .write false [.string "ab"], .append,
      .write true [.integer 7], .close, .reset, .read true [⟨0, []⟩], .eof]
    let last := (onNewFile .buffered calls start).2
    (∀ k (hk : k < calls.length), calls[k].opensAfresh →
      ((onNewFile .buffered (calls.take k) start).2.file start.newFile.1).isDirty = false) ∧
    (last.store.get ⟨0, []⟩ >>= Value.asString).toOption = some "ab7" ∧
    (last.disk.readText "out.txt").toOption = some "ab7\n" := by
  intro start calls last
  have hclean : ∀ k (hk : k < calls.length), calls[k].opensAfresh →
      ((onNewFile .buffered (calls.take k) start).2.file start.newFile.1).isDirty = false := by
    decide +kernel
  obtain ⟨-, hstore, -, -, hdisk⟩ := onNewFile_unbuffered start calls hclean
  refine ⟨hclean, ?_, ?_⟩
  · rw [hstore]
    decide +kernel
  · rw [(hdisk (by decide +kernel)).readText]
    decide +kernel

/-- What a file that is opened anew still kept back comes over what is written afterwards. -/
theorem onNewFile_unbuffered_overwritten :
    let start : World := { console := .ofInput "" }
    let calls : List FileCall := [.assign "out.txt", .rewrite, .write false [.string "abc"], .rewrite,
      .write false [.string "x"], .close]
    ((onNewFile .buffered calls start).2.disk.readText "out.txt").toOption = some "xbc" ∧
    ((onNewFile .unbuffered calls start).2.disk.readText "out.txt").toOption = some "x" := by
  intro start calls
  decide +kernel

end FileCall

end

end Pascal
