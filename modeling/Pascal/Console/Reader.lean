import Pascal.Fault
import Pascal.Text.Blank

/-! # Reading words and lines

A reader keeps the unread rest of the current line and fetches the next line only when it needs one.
Words may lie on later lines; the end of a line reads as a space. -/

namespace Pascal

structure Reader where
  /-- What is left of the current line, if a line has been begun. -/
  pending : Option (List Char) := none
  /-- The lines that have not been begun. -/
  lines : List String
  /-- Why no line can be fetched, if that is so. -/
  refusal : Option String := none

namespace Reader

/-- Reading changes the reader, also where it fails. -/
abbrev Read := EStateM Fault Reader

/-- Fetches a line, unless there are no more. -/
def nextLine : Read (Option (List Char)) := fun r =>
  match r.refusal, r.lines with
  | some message, _ => .error (.io message) r
  | none, [] => .ok none r
  | none, line :: lines => .ok (some line.toList) { r with lines }

/-- Fetches a line that has to be there. -/
def demandLine : Read (List Char) := fun r =>
  match nextLine r with
  | .ok (some line) r => .ok line r
  | .ok none r => .error .inputExhausted r
  | .error e r => .error e r

/-- The rest of the current line; a new line is begun if there is none. -/
def current : Read (List Char) := fun r =>
  match r.pending with
  | some line => .ok line r
  | none =>
    match demandLine r with
    | .ok line r => .ok line { r with pending := some line }
    | .error e r => .error e r

/-- The first word of `line` or else of the lines after it. -/
def wordFrom (refusal : Option String) (line : List Char) (lines : List String) :
    EStateM.Result Fault Reader String :=
  match Text.trimStart line with
  | c :: cs =>
    let (word, rest) := Text.splitWord (c :: cs)
    .ok (String.ofList word) ⟨some rest, lines, refusal⟩
  | [] =>
    match refusal, lines with
    | some message, _ => .error (.io message) ⟨none, lines, refusal⟩
    | none, [] => .error .inputExhausted ⟨none, [], none⟩
    | none, next :: lines => wordFrom none next.toList lines
termination_by lines.length

/-- The next word, on this line or a later one. -/
def word : Read String := fun r =>
  match current r with
  | .ok line r => wordFrom r.refusal line r.lines
  | .error e r => .error e r

/-- The next character of the line; its end reads as a space. -/
def char : Read Char := fun r =>
  match current r with
  | .ok (c :: rest) r => .ok c { r with pending := some rest }
  | .ok [] r => .ok ' ' { r with pending := none }
  | .error e r => .error e r

/-- All that is left of the line, which is then empty but has not ended. -/
def rest : Read String := fun r =>
  match current r with
  | .ok line r => .ok (String.ofList line) { r with pending := some [] }
  | .error e r => .error e r

/-- Drops the rest of the line, or a whole line if none has been begun. -/
def finishLine : Read Unit := fun r =>
  match r.pending with
  | some _ => .ok () { r with pending := none }
  | none =>
    match demandLine r with
    | .ok _ r => .ok () r
    | .error e r => .error e r

/-- Whether nothing is left, not even the end of a line. -/
def atEnd : Read Bool := fun r =>
  match r.pending with
  | some _ => .ok false r
  | none =>
    match nextLine r with
    | .ok (some line) r => .ok false { r with pending := some line }
    | .ok none r => .ok true r
    | .error e r => .error e r

end Reader

end Pascal
