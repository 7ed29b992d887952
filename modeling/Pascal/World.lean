import Pascal.Value.Store
import Pascal.Console
import Pascal.Library.TextFile

/-! # The world of a running program

Everything that library routines can see and change: storage, text files, the disk, the console, and
whether the run has been cancelled. -/

namespace Pascal

structure World where
  store : Store := {}
  files : Array TextFile := #[]
  disk : Disk := {}
  console : Console
  cancelled : Bool := false

/-- Why a routine fails: for a reason of the language, or for one of its own. -/
inductive Refusal where
  | fault (f : Fault)
  | host (text : String)
deriving DecidableEq, Repr

/-- What library routines do. Changes made before a failure remain. -/
abbrev Host := EStateM Refusal World

namespace World

/-- A new text file that is bound to no name. -/
def newFile (w : World) : Nat × World := (w.files.size, { w with files := w.files.push {} })

def file (w : World) (n : Nat) : TextFile := w.files[n]?.getD {}

def setFile (w : World) (n : Nat) (f : TextFile) : World :=
  { w with files := w.files.setIfInBounds n f }

def render (w : World) (v : Value) : String := w.store.render v

end World

namespace Host

def fail {α : Type} (f : Fault) : Host α := throw (.fault f)

def liftFault {α : Type} (r : Except Fault α) : Host α :=
  match r with
  | .ok a => pure a
  | .error f => fail f

def get (r : Ref) : Host Value := do liftFault ((← EStateM.get).store.get r)

/-- Replaces the value at a reference by what `f` makes of it. -/
def update (r : Ref) (f : Value → Except Fault Value) : Host Unit := fun w =>
  match w.store.revised r f with
  | .ok v => .ok () { w with store := w.store.put r.cell v }
  | .error e => .error (.fault e) w

def set (r : Ref) (v : Value) : Host Unit := update r fun _ => .ok v

def render (v : Value) : Host String := do return (← EStateM.get).render v

/-- Writes to the screen. -/
def write (text : String) : Host Unit := fun w =>
  match w.console.writeRefusal with
  | some message => .error (.fault (.io message)) w
  | none => .ok () { w with console := { w.console with shown := .text text :: w.console.shown } }

def clearScreen : Host Unit := fun w =>
  match w.console.clearRefusal with
  | some message => .error (.fault (.io message)) w
  | none => .ok () { w with console := { w.console with shown := .clear :: w.console.shown } }

/-- Reads from the console. -/
def onConsole {α : Type} (read : Reader.Read α) : Host α := fun w =>
  match read w.console.reader with
  | .ok a reader => .ok a { w with console := { w.console with reader } }
  | .error f reader => .error (.fault f) { w with console := { w.console with reader } }

/-- Changes a text file. -/
def onFile (n : Nat) (change : TextFile → Disk → TextFile.Change) : Host Unit := fun w =>
  match change (w.file n) w.disk with
  | .ok (f, disk) => .ok () { w.setFile n f with disk }
  | .error f => .error (.fault f) w

/-- Reads from a text file that is open for reading. -/
def fromFile {α : Type} (n : Nat) (read : Reader.Read α) : Host α := fun w =>
  match (w.file n).state with
  | .reading r =>
    match read r with
    | .ok a r => .ok a (w.setFile n ⟨(w.file n).name, .reading r⟩)
    | .error f r => .error (.fault f) (w.setFile n ⟨(w.file n).name, .reading r⟩)
  | _ => .error (.fault (w.file n).notOpen) w

end Host

end Pascal
