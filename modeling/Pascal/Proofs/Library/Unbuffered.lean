import Pascal.Proofs.Library.Writer

/-!
# Text files without a buffer

A text file keeps back what is written to it. Beside it stands a file that every write reaches at once: what
the routines do with the two comes to the same, as long as a file that still keeps something back is not
opened from its start or for reading.
-/

namespace Pascal

open Disk (Same)

namespace TextFile

/-- What the routines do with a text file and the disk. -/
structure Operations where
  assign : TextFile → String → Disk → Change
  rewrite : TextFile → Disk → Change
  append : TextFile → Disk → Change
  reset : TextFile → Disk → Change
  close : TextFile → Disk → Change
  write : TextFile → String → Disk → Change

/-- What the library does. -/
def Operations.buffered : Operations where
  assign f name d := .ok (f.assign name d)
  rewrite := startOver
  append := TextFile.append
  reset := TextFile.reset
  close := TextFile.close
  write := TextFile.write

def closed (f : TextFile) : TextFile := ⟨f.name, .closed⟩

/-- Adds a text to the file on the disk. -/
def writeThrough (f : TextFile) (text : String) (d : Disk) : Change :=
  match f.state with
  | .writing w => .ok (f, d.append w.place text.toUTF8)
  | _ => .error f.notOpen

/-- Nothing is kept back: a text goes to the disk when it is written, and closing a file, which happens
before it is opened again, leaves the disk as it is. -/
def Operations.unbuffered : Operations where
  assign _ name d := .ok (⟨some name, .closed⟩, d)
  rewrite f := f.closed.startOver
  append f := f.closed.append
  reset f := f.closed.reset
  close f d :=
    match f.state with
    | .closed => .error f.notOpen
    | _ => .ok (f.closed, d)
  write := writeThrough

/-- A file with a buffer and a file without one, each on its disk: they are open in the same way, and the
second disk holds what the first one would if all were delivered. -/
inductive Mirrors : TextFile → Disk → TextFile → Disk → Prop
  | closed (name : Option String) {d e : Disk} (h : Same d e) : Mirrors ⟨name, .closed⟩ d ⟨name, .closed⟩ e
  | reading (name : Option String) (r : Reader) {d e : Disk} (h : Same d e) :
    Mirrors ⟨name, .reading r⟩ d ⟨name, .reading r⟩ e
  | writing (name : Option String) {w v : Writer} {d e : Disk} (hplace : v.place = w.place)
    (hend : w.AtEnd d) (h : Same (d.append w.place w.buffer) e) :
    Mirrors ⟨name, .writing w⟩ d ⟨name, .writing v⟩ e

/-- Both fail alike, or both succeed. -/
inductive Alike : Change → Change → Prop
  | ok {f g : TextFile} {d e : Disk} (h : Mirrors f d g e) : Alike (.ok (f, d)) (.ok (g, e))
  | error (fault : Fault) : Alike (.error fault) (.error fault)

section

variable {f g : TextFile} {d e : Disk}

theorem release_of_not_isDirty (h : f.isDirty = false) (d : Disk) : f.release d = d := by
  unfold release
  split
  · next w hstate =>
    have hempty : w.buffer.isEmpty = true := by simpa [isDirty, hstate] using h
    rw [Writer.flush, if_pos hempty]
  · rfl

namespace Mirrors

open Operations (buffered unbuffered)

theorem name (h : Mirrors f d g e) : g.name = f.name := by
  cases h <;> rfl

theorem bound (h : Mirrors f d g e) : g.bound = f.bound := by
  rw [TextFile.bound, TextFile.bound, h.name]

theorem release (h : Mirrors f d g e) : Same (f.release d) e := by
  cases h with
  | closed _ h => exact h
  | reading _ _ h => exact h
  | writing _ _ hend h => exact hend.flush_disk.trans h

/-- With nothing kept back the disks themselves are the same. -/
theorem same (h : Mirrors f d g e) (hclean : f.isDirty = false) : Same d e :=
  release_of_not_isDirty hclean d ▸ h.release

/-- What is kept back does not show in the shape of the disk. -/
theorem shape (h : Mirrors f d g e) : d.shape = e.shape := by
  cases h with
  | closed _ h => exact h.shape
  | reading _ _ h => exact h.shape
  | writing _ _ hend h => rw [← h.shape, Disk.shape_append hend.file]

theorem assign (h : Mirrors f d g e) (name : String) :
    Alike (buffered.assign f name d) (unbuffered.assign g name e) := .ok (.closed _ h.release)

theorem close (h : Mirrors f d g e) : Alike (buffered.close f d) (unbuffered.close g e) := by
  have hrelease := h.release
  cases h with
  | closed => exact .error _
  | reading => exact .ok (.closed _ hrelease)
  | writing => exact .ok (.closed _ hrelease)

theorem write (h : Mirrors f d g e) (text : String) :
    Alike (buffered.write f text d) (unbuffered.write g text e) := by
  cases h with
  | closed => exact .error _
  | reading => exact .error _
  | @writing name w v d e hplace hend h =>
    obtain ⟨hend', hflush⟩ := hend.write text.toUTF8
    refine .ok (.writing name (hplace.trans (Writer.write_place _).symm) hend' ?_)
    refine hend'.flush_disk.symm.trans (hflush.trans ?_)
    rw [hplace]
    exact (Disk.append_append hend.file _ _).symm.trans (h.append (Disk.ne_nil_of_shape hend.file) _)

theorem reset (h : Mirrors f d g e) (hclean : f.isDirty = false) :
    Alike (buffered.reset f d) (unbuffered.reset g e) := by
  have hsame := h.same hclean
  show Alike (f.reset d) (g.closed.reset e)
  have hname : g.closed.bound = f.bound := h.bound
  unfold TextFile.reset
  rw [hname]
  cases f.bound with
  | error fault => exact .error fault
  | ok name =>
    simp only [Bind.bind, Except.bind, ← hsame.readText name]
    cases d.readText name with
    | ok text =>
      rw [release_of_not_isDirty hclean, show g.closed.name = f.name from h.name]
      exact .ok (.reading _ _ hsame)
    | error cause => cases cause <;> exact .error _

/-- A file that has just been opened for writing has nothing to deliver. -/
theorem opened (name : Option String) {place : Disk.Path} {offset : Option Nat}
    (hend : Writer.AtEnd { place, offset } d) (h : Same d e) :
    Mirrors ⟨name, .writing { place, offset }⟩ d ⟨name, .writing { place, offset }⟩ e :=
  .writing name rfl hend ((Disk.append_empty hend.file).trans h)

theorem rewrite (h : Mirrors f d g e) (hclean : f.isDirty = false) :
    Alike (buffered.rewrite f d) (unbuffered.rewrite g e) := by
  have hsame := h.same hclean
  show Alike (f.startOver d) (g.closed.startOver e)
  have hname : g.closed.bound = f.bound := h.bound
  unfold startOver
  rw [hname]
  cases f.bound with
  | error fault => exact .error fault
  | ok name =>
    simp only [Bind.bind, Except.bind, Disk.createFile_eq, ← Disk.opening_congr hsame.shape name]
    cases hopening : d.opening name with
    | error cause => exact .error _
    | ok place =>
      have hne := Disk.opening_ne_nil hopening
      have hend : Writer.AtEnd { place, offset := some 0 } ((d.made place).put place (.file .empty)) := by
        refine ⟨?_, fun offset hoffset => ?_⟩
        · rw [Disk.shape_put (Disk.shape_made hopening), Disk.shape_made hopening]
        · rw [← Option.some.inj hoffset, Disk.bytes_put hne, ByteArray.size_empty]
      have hnew := opened f.name hend ((hsame.made hne).put hne (.file .empty))
      rw [← release_of_not_isDirty hclean ((d.made place).put place (.file .empty))] at hnew
      rw [show g.closed.name = f.name from h.name]
      exact .ok hnew

/-- A file that is made meanwhile is another one than the file that is written to. -/
theorem made (h : Mirrors f d g e) {place : Disk.Path} (hplace : place ≠ []) :
    Mirrors f (d.made place) g (e.made place) := by
  have hshape := h.shape
  cases h with
  | closed _ h => exact .closed _ (h.made hplace)
  | reading _ _ h => exact .reading _ _ (h.made hplace)
  | @writing name w v d e hvw hend h =>
    rw [Disk.made, Disk.made, ← hshape]
    split
    · exact .writing name hvw hend h
    · next hnone =>
      have hne : w.place ≠ place := by
        rintro rfl
        exact hnone (hend.file ▸ rfl)
      refine .writing name hvw (hend.put hplace hne _) (.trans ?_ (h.put hplace _))
      have hbytes : (d.put place (.file .empty)).bytes w.place = d.bytes w.place := by
        rw [Disk.bytes, Disk.node?_put hplace, if_neg hne, Disk.bytes]
      rw [Disk.append, Disk.append, hbytes]
      exact Disk.put_comm hplace (Disk.ne_nil_of_shape hend.file) hne.symm _ _

theorem append (h : Mirrors f d g e) : Alike (buffered.append f d) (unbuffered.append g e) := by
  show Alike (f.append d) (g.closed.append e)
  have hname : g.closed.bound = f.bound := h.bound
  unfold TextFile.append
  rw [hname]
  cases f.bound with
  | error fault => exact .error fault
  | ok name =>
    simp only [Bind.bind, Except.bind, Disk.openFile_eq, ← Disk.opening_congr h.shape name]
    cases hopening : d.opening name with
    | error cause => exact .error _
    | ok place =>
      have hsame := (h.made (Disk.opening_ne_nil hopening)).release
      have hfile : (e.made place).shape place = some .file :=
        Disk.shape_made (Disk.opening_congr h.shape name ▸ hopening)
      have hend : Writer.AtEnd { place, offset := none } (f.release (d.made place)) :=
        ⟨hsame.shape ▸ hfile, nofun⟩
      rw [show g.closed.name = f.name from h.name]
      exact .ok (opened f.name hend hsame)

end Mirrors

/-- The file is open for writing, and by its name the disk gives a text. -/
structure Holds (f : TextFile) (d : Disk) (name text : String) : Prop where
  bound : f.name = some name
  writing : ∃ w, f.state = .writing w ∧ d.locate name = .ok (w.place, false) ∧
    d.node? w.place = some (.file text.toUTF8)

variable {name text : String}

namespace Holds

theorem readText (h : f.Holds d name text) : d.readText name = .ok text := by
  obtain ⟨w, -, hlocate, hnode⟩ := h.writing
  have htext : String.fromUTF8? text.toUTF8 = some text := dif_pos text.isValidUTF8
  simp only [Disk.readText, Disk.read, hlocate, Bind.bind, Except.bind, hnode, Bool.false_eq_true, if_false,
    htext]

/-- What is written is added to the text, at once. -/
theorem write (h : f.Holds d name text) (more : String) :
    ∃ e, Operations.unbuffered.write f more d = .ok (f, e) ∧ f.Holds e name (text ++ more) := by
  obtain ⟨w, hstate, hlocate, hnode⟩ := h.writing
  have hfile := Disk.shape_eq_file hnode
  refine ⟨d.append w.place more.toUTF8, ?_, h.bound, w, hstate, ?_, ?_⟩
  · show writeThrough f more d = _
    rw [writeThrough, hstate]
  · rw [Disk.locate_congr (Disk.shape_append hfile _), hlocate]
  · rw [Disk.node?_eq_of_bytes (by rw [Disk.shape_append hfile, hfile]), Disk.bytes_append hfile,
      Disk.bytes, hnode]
    simp

theorem bound_closed (hname : f.name = some name) : f.closed.bound = .ok name := by
  have hclosed : f.closed.name = some name := hname
  rw [TextFile.bound, hclosed]

theorem of_rewrite (hname : f.name = some name) (h : Operations.unbuffered.rewrite f d = .ok (g, e)) :
    g.Holds e name "" := by
  change f.closed.startOver d = _ at h
  simp only [startOver, bound_closed hname, Bind.bind, Except.bind, Disk.createFile_eq] at h
  cases hopening : d.opening name with
  | error cause => rw [hopening] at h; cases h
  | ok place =>
    rw [hopening] at h
    cases h
    refine ⟨hname, _, rfl, ?_, ?_⟩
    · show ((d.made place).put place (.file .empty)).locate name = .ok (place, false)
      rw [Disk.locate_congr (Disk.shape_put (Disk.shape_made hopening) _)]
      exact Disk.locate_made hopening
    · show ((d.made place).put place (.file .empty)).node? place = some (.file "".toUTF8)
      rw [Disk.node?_put (Disk.opening_ne_nil hopening), if_pos rfl]
      rfl

/-- A file that is opened at its end keeps its text, and one that was not there has none. -/
theorem of_append (hname : f.name = some name) (hold : d.readText name = .ok text ∨
    d.readText name = .error .notFound ∧ text = "")
    (h : Operations.unbuffered.append f d = .ok (g, e)) : g.Holds e name text := by
  change f.closed.append d = _ at h
  simp only [TextFile.append, bound_closed hname, Bind.bind, Except.bind, Disk.openFile_eq] at h
  cases hopening : d.opening name with
  | error cause => rw [hopening] at h; cases h
  | ok place =>
    rw [hopening] at h
    cases h
    refine ⟨hname, _, rfl, Disk.locate_made hopening, ?_⟩
    show (d.made place).node? place = some (.file text.toUTF8)
    have hlocate := (Disk.opening_eq_ok.mp hopening).1
    rcases hold with hold | ⟨hold, rfl⟩
    · have hnode := Disk.node?_of_readText hlocate hold
      rwa [Disk.made, if_pos (by rw [Disk.shape_eq_file hnode]; rfl)]
    · have hnone := Disk.node?_of_notFound hlocate hold
      rw [Disk.made, if_neg (by simp [Disk.shape, hnone]), Disk.node?_put (Disk.opening_ne_nil hopening),
        if_pos rfl]
      rfl

end Holds

end

end TextFile

end Pascal
