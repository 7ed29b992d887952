import Pascal.Console.Reader
import Pascal.Text.Line

/-! # The console -/

namespace Pascal

/-- What a program does to the screen. -/
inductive ScreenEvent where
  | text (s : String)
  | clear
deriving DecidableEq, Repr

structure Console where
  reader : Reader
  /-- What the screen was sent, the latest first. -/
  shown : List ScreenEvent := []
  /-- Why nothing can be written, if that is so. -/
  writeRefusal : Option String := none
  /-- Why the screen cannot be cleared, if that is so. -/
  clearRefusal : Option String := none

namespace Console

/-- A console with prepared input. -/
def ofInput (input : String) : Console := { reader := { lines := Text.lines input } }

/-- A terminal whose input is known. -/
def ofTerminal (input : String) : Console := { reader := { lines := Text.terminalLines input } }

/-- All text written, in order. -/
def output (c : Console) : String :=
  c.shown.foldr (fun e s => match e with | .text t => s ++ t | .clear => s) ""

/-- How often the screen was cleared. -/
def clears (c : Console) : Nat :=
  c.shown.countP fun e => match e with | .clear => true | .text _ => false

def clearSequence : String := "\x1b[2J\x1b[H"

/-- What a terminal receives: clearing the screen is a sequence of control characters. -/
def terminalOutput (c : Console) : String :=
  c.shown.foldr (fun e s => s ++ match e with | .text t => t | .clear => clearSequence) ""

end Console

end Pascal
