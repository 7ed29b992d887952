import Pascal.Library.TextFile
import Pascal.Proofs.Disk.Same

/-!
# A writer at the end of its file

A writer that stands at the end of its file only ever adds to it: what it delivers, and when, makes no
difference to what the file holds once everything is delivered.
-/

namespace Pascal

namespace Disk

variable {d : Disk} {place : Path} {a b : ByteArray}

theorem bytes_put (hplace : place ≠ []) (a : ByteArray) : (d.put place (.file a)).bytes place = a := by
  rw [bytes, node?_put hplace, if_pos rfl]

theorem node?_eq_of_bytes (h : d.shape place = some .file) :
    d.node? place = some (.file (d.bytes place)) := by
  obtain ⟨node, hnode, hkind⟩ := Option.map_eq_some_iff.mp h
  cases node with
  | file a => rw [bytes, hnode]
  | directory => cases hkind

theorem ne_nil_of_shape (h : d.shape place = some .file) : place ≠ [] := by
  rintro rfl
  cases h

theorem shape_append (h : d.shape place = some .file) (a : ByteArray) :
    (d.append place a).shape = d.shape := shape_put h _

theorem bytes_append (h : d.shape place = some .file) (a : ByteArray) :
    (d.append place a).bytes place = d.bytes place ++ a := bytes_put (ne_nil_of_shape h) _

theorem put_put (hplace : place ≠ []) (n m : Node) :
    Same ((d.put place n).put place m) (d.put place m) := by
  intro path
  rw [node?_put hplace, node?_put hplace, node?_put hplace]
  split <;> rfl

theorem put_comm {place' : Path} (hplace : place ≠ []) (hplace' : place' ≠ []) (hne : place ≠ place')
    (n m : Node) : Same ((d.put place n).put place' m) ((d.put place' m).put place n) := by
  intro path
  rw [node?_put hplace', node?_put hplace, node?_put hplace, node?_put hplace']
  by_cases hpath : path = place
  · rw [if_neg (hpath ▸ hne), if_pos hpath, if_pos hpath]
  · rw [if_neg hpath, if_neg hpath]

theorem append_empty (h : d.shape place = some .file) : Same (d.append place .empty) d := by
  intro path
  rw [append, node?_put (ne_nil_of_shape h), ByteArray.append_empty]
  split
  · next hpath => rw [hpath, node?_eq_of_bytes h]
  · rfl

theorem append_append (h : d.shape place = some .file) (a b : ByteArray) :
    Same ((d.append place a).append place b) (d.append place (a ++ b)) := by
  rw [append, bytes_append h, ByteArray.append_assoc]
  exact put_put (ne_nil_of_shape h) _ _

/-- At the end of a file, writing is appending. -/
theorem writeAt_size (d : Disk) (place : Path) (a : ByteArray) :
    d.writeAt place (d.bytes place).size a = d.append place a := by
  have hpad : padTo (d.bytes place) (d.bytes place).size = d.bytes place := by
    rw [padTo, Nat.sub_self]
    exact ByteArray.append_empty
  have hrest : (d.bytes place).extract ((d.bytes place).size + a.size) (d.bytes place).size = .empty :=
    ByteArray.extract_eq_empty_iff.mpr (by omega)
  rw [writeAt, overwrite, ByteArray.extract_zero_size, hpad, hrest, ByteArray.append_empty, append]

end Disk

namespace Writer

open Disk (Same)

/-- The file is there, and what is delivered goes to its end. -/
structure AtEnd (w : Writer) (d : Disk) : Prop where
  file : d.shape w.place = some .file
  offset : ∀ offset, w.offset = some offset → offset = (d.bytes w.place).size

variable {w : Writer} {d : Disk}

/-- The same writer with other bytes to deliver. -/
theorem AtEnd.withBuffer (h : w.AtEnd d) (buffer : ByteArray) : AtEnd { w with buffer } d :=
  ⟨h.file, h.offset⟩

/-- Another file does not matter. -/
theorem AtEnd.put (h : w.AtEnd d) {place : Disk.Path} (hplace : place ≠ []) (hne : w.place ≠ place)
    (node : Disk.Node) : w.AtEnd (d.put place node) := by
  have hnode : (d.put place node).node? w.place = d.node? w.place := by
    rw [Disk.node?_put hplace, if_neg hne]
  refine ⟨?_, fun offset hoffset => ?_⟩
  · rw [Disk.shape, hnode]
    exact h.file
  · rw [Disk.bytes, hnode]
    exact h.offset offset hoffset

theorem deliver_place (bytes : ByteArray) : (w.deliver bytes d).1.place = w.place := by
  unfold deliver
  split <;> rfl

theorem deliver_buffer (bytes : ByteArray) : (w.deliver bytes d).1.buffer = w.buffer := by
  unfold deliver
  split <;> rfl

theorem AtEnd.deliver_disk (h : w.AtEnd d) (bytes : ByteArray) :
    (w.deliver bytes d).2 = d.append w.place bytes := by
  unfold deliver
  split
  · next offset hoffset => rw [h.offset offset hoffset, Disk.writeAt_size]
  · rfl

theorem AtEnd.deliver (h : w.AtEnd d) (bytes : ByteArray) :
    (w.deliver bytes d).1.AtEnd (w.deliver bytes d).2 where
  file := by rw [h.deliver_disk, deliver_place, Disk.shape_append h.file, h.file]
  offset := by
    intro offset hoffset
    rw [h.deliver_disk, deliver_place, Disk.bytes_append h.file, ByteArray.size_append]
    unfold Writer.deliver at hoffset
    split at hoffset
    · next old hold =>
      rw [← h.offset old hold]
      exact (Option.some.inj hoffset).symm
    · next hnone => exact absurd (hnone ▸ hoffset) nofun

theorem flush_place : (w.flush d).1.place = w.place := by
  unfold flush
  split
  · rfl
  · exact deliver_place _

/-- Afterwards the file holds what it held, followed by what was kept back. -/
theorem AtEnd.flush_disk (h : w.AtEnd d) : Same (w.flush d).2 (d.append w.place w.buffer) := by
  unfold flush
  split
  · next hempty =>
    have hbuffer : w.buffer = .empty := ByteArray.size_eq_zero_iff.mp (beq_iff_eq.mp hempty)
    rw [hbuffer]
    exact (Disk.append_empty h.file).symm
  · exact h.deliver_disk w.buffer ▸ .refl _

theorem AtEnd.flush (h : w.AtEnd d) : (w.flush d).1.AtEnd (w.flush d).2 := by
  unfold Writer.flush
  split
  · exact h
  · exact (h.deliver w.buffer).withBuffer _

theorem flush_buffer : (w.flush d).1.buffer = .empty := by
  unfold flush
  split
  · next hempty => exact ByteArray.size_eq_zero_iff.mp (beq_iff_eq.mp hempty)
  · rfl

/-- When more is to be written than fits, what was kept back is delivered first. -/
def makeRoom (w : Writer) (size : Nat) (d : Disk) : Writer × Disk :=
  if capacity - w.buffer.size < size then w.flush d else (w, d)

theorem write_eq (bytes : ByteArray) :
    w.write bytes d =
      let (v, e) := w.makeRoom bytes.size d
      if capacity ≤ bytes.size then v.deliver bytes e
      else ({ v with buffer := v.buffer ++ bytes }, e) := rfl

theorem makeRoom_place (size : Nat) : (w.makeRoom size d).1.place = w.place := by
  unfold makeRoom
  split
  · exact flush_place
  · rfl

theorem AtEnd.makeRoom (h : w.AtEnd d) (size : Nat) :
    (w.makeRoom size d).1.AtEnd (w.makeRoom size d).2 ∧
    Same ((w.makeRoom size d).2.append w.place (w.makeRoom size d).1.buffer)
      (d.append w.place w.buffer) := by
  unfold Writer.makeRoom
  split
  · refine ⟨h.flush, ?_⟩
    rw [flush_buffer]
    have hfile := h.flush.file
    rw [flush_place] at hfile
    exact (Disk.append_empty hfile).trans h.flush_disk
  · exact ⟨h, .refl _⟩

/-- What fills the buffer alone finds it empty. -/
theorem makeRoom_buffer {size : Nat} (h : capacity ≤ size) :
    (w.makeRoom size d).1.buffer = .empty := by
  unfold makeRoom
  split
  · exact flush_buffer
  · next hfits =>
    have hsize : w.buffer.size = 0 := by simp only [capacity] at h hfits; omega
    exact ByteArray.size_eq_zero_iff.mp hsize

theorem write_place (bytes : ByteArray) : (w.write bytes d).1.place = w.place := by
  rw [write_eq]
  simp only
  split
  · rw [deliver_place, makeRoom_place]
  · exact makeRoom_place _

/-- However much of it goes to the disk at once, with what is kept back the text is added to the end of
the file. -/
theorem AtEnd.write (h : w.AtEnd d) (bytes : ByteArray) :
    (w.write bytes d).1.AtEnd (w.write bytes d).2 ∧
    Same ((w.write bytes d).1.flush (w.write bytes d).2).2 (d.append w.place (w.buffer ++ bytes)) := by
  obtain ⟨hroom, hsame⟩ := h.makeRoom bytes.size
  have hfile := hroom.file
  have hplace := @makeRoom_place w d bytes.size
  have hbuffer := @makeRoom_buffer w d bytes.size
  rw [write_eq]
  generalize w.makeRoom bytes.size d = room at *
  obtain ⟨v, e⟩ := room
  simp only at hroom hplace hsame hfile hbuffer ⊢
  have hall : Same (e.append v.place (v.buffer ++ bytes)) (d.append w.place (w.buffer ++ bytes)) := by
    refine (Disk.append_append hfile _ _).symm.trans (.trans ?_ (Disk.append_append h.file _ _))
    rw [hplace]
    exact hsame.append (Disk.ne_nil_of_shape h.file) bytes
  split
  · next hlarge =>
    have hend := hroom.deliver bytes
    refine ⟨hend, hend.flush_disk.trans (.trans ?_ hall)⟩
    rw [deliver_place, deliver_buffer, hroom.deliver_disk, hbuffer hlarge, ByteArray.empty_append]
    refine Disk.append_empty ?_
    rw [Disk.shape_append hfile, hfile]
  · exact ⟨hroom.withBuffer _, (hroom.withBuffer _).flush_disk.trans hall⟩

end Writer

end Pascal
