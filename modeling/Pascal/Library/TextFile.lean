import Pascal.Disk
import Pascal.Console.Reader
import Pascal.Text.Line

/-! # Text files

A text file is a name and, while it is open, a reader or a writer. A writer collects what it is given
and delivers it to the disk when its buffer overflows, when it is closed, or when its file is opened
again or forgotten. -/

namespace Pascal

/-- A file open for writing, at its own offset or always at the end. -/
structure Writer where
  place : Disk.Path
  offset : Option Nat
  buffer : ByteArray := .empty

namespace Writer

/-- The number of bytes that a writer keeps back at most. -/
def capacity : Nat := 8192

/-- Writes bytes to the disk and moves on behind them. -/
def deliver (w : Writer) (bytes : ByteArray) (d : Disk) : Writer × Disk :=
  match w.offset with
  | some offset => ({ w with offset := some (offset + bytes.size) }, d.writeAt w.place offset bytes)
  | none => (w, d.append w.place bytes)

/-- Delivers all that was kept back. -/
def flush (w : Writer) (d : Disk) : Writer × Disk :=
  if w.buffer.isEmpty then (w, d)
  else
    let (w, d) := w.deliver w.buffer d
    ({ w with buffer := .empty }, d)

/-- Takes more bytes. What does not fit delivers the buffer first, and what would fill it alone goes
straight to the disk. -/
def write (w : Writer) (bytes : ByteArray) (d : Disk) : Writer × Disk :=
  let (w, d) := if capacity - w.buffer.size < bytes.size then w.flush d else (w, d)
  if capacity ≤ bytes.size then w.deliver bytes d else ({ w with buffer := w.buffer ++ bytes }, d)

end Writer

namespace TextFile

inductive State where
  | closed
  | reading (r : Reader)
  | writing (w : Writer)

end TextFile

structure TextFile where
  name : Option String := none
  state : TextFile.State := .closed

namespace TextFile

/-- What an operation on a text file makes of the file and the disk. -/
abbrev Change := Except Fault (TextFile × Disk)

/-- The fault of a file that is not open in the way it is used. -/
def notOpen (f : TextFile) : Fault := .fileNotOpen (f.name.getD "")

/-- Delivers what a forgotten file still keeps back. -/
def release (f : TextFile) (d : Disk) : Disk :=
  match f.state with
  | .writing w => (w.flush d).2
  | _ => d

/-- Whether a forgotten file would have something to deliver. -/
def isDirty (f : TextFile) : Bool :=
  match f.state with
  | .writing w => !w.buffer.isEmpty
  | _ => false

/-- Binds the file to a name. -/
def assign (f : TextFile) (name : String) (d : Disk) : TextFile × Disk :=
  (⟨some name, .closed⟩, f.release d)

def bound (f : TextFile) : Except Fault String :=
  match f.name with
  | some name => .ok name
  | none => .error (.fileNotOpen "")

def orIo {α : Type} (r : Except DiskError α) : Except Fault α :=
  r.mapError (fun e => .io e.message)

/-- Opens the file for writing from its start. What it still kept back is delivered afterwards. -/
def startOver (f : TextFile) (d : Disk) : Change := do
  let (place, d) ← orIo (d.createFile (← f.bound))
  return (⟨f.name, .writing { place, offset := some 0 }⟩, f.release d)

/-- Opens the file for writing at its end. -/
def append (f : TextFile) (d : Disk) : Change := do
  let (place, d) ← orIo (d.openFile (← f.bound))
  return (⟨f.name, .writing { place, offset := none }⟩, f.release d)

/-- Opens the file for reading what the disk holds of it now. -/
def reset (f : TextFile) (d : Disk) : Change := do
  let name ← f.bound
  match d.readText name with
  | .ok text => return (⟨f.name, .reading { lines := Text.lines text }⟩, f.release d)
  | .error .notFound => .error (.fileNotFound name)
  | .error e => .error (.io e.message)

def close (f : TextFile) (d : Disk) : Change :=
  match f.state with
  | .closed => .error f.notOpen
  | _ => .ok (⟨f.name, .closed⟩, f.release d)

def write (f : TextFile) (text : String) (d : Disk) : Change :=
  match f.state with
  | .writing w =>
    let (w, d) := w.write text.toUTF8 d
    .ok (⟨f.name, .writing w⟩, d)
  | _ => .error f.notOpen

end TextFile

end Pascal
