import Pascal.CommandLine
import Pascal.Library.Standard
import Pascal.Program.Compile
import Pascal.Program.Run
import Pascal.Settings.Yaml

/-! # What a command line does

The program of a source file is compiled and run on the files of a disk and on what is typed at a
terminal. -/

namespace Pascal

/-- What a command leaves behind. -/
structure Execution where
  /-- The number that tells how it went: zero only after a complete run. -/
  status : Nat
  output : String := ""
  errors : String := ""
  disk : Disk

namespace CommandLine

/-- The message about a file that cannot be used, and the reason behind it. -/
private def becauseOf (what : String) (e : DiskError) : String :=
  "Error: " ++ what ++ "\n\nCaused by:\n    " ++ e.message ++ "\n"

/-- The settings that the command line asks for. -/
def loadSettings (c : CommandLine) (disk : Disk) : Except String Settings :=
  match c.settings with
  | none => .ok {}
  | some name =>
    match disk.readText name with
    | .error e =>
      .error (becauseOf ("Failed to read config '" ++ name ++ "': " ++ e.message) e)
    | .ok text =>
      match Settings.ofYaml? text with
      | some settings => .ok settings
      | none => .error "Error: Invalid config\n"

def toolchain (c : CommandLine) (disk : Disk) : Toolchain :=
  { sources := ⟨disk, c.directory :: c.includes⟩, libraries := Library.standard, folds := c.folds }

private def reportText : Report → String
  | .line pos => "line " ++ pos.text ++ "\n"
  | .message text => "snapshot " ++ text ++ "\n"

/-- The number for a program that the host broke off. -/
def crashStatus : Nat := 101

/-- The number for a source text that is rejected, or that the host breaks off on. -/
private def rejection : CompileError → Nat
  | .crash _ => crashStatus
  | _ => 1

/-- The number and the message for the end of a run. -/
private def ending : Outcome → Nat × String
  | .completed => (0, "")
  | .cancelled pos => (130, (Outcome.cancelled pos).message ++ "\n")
  | .crashed what => (crashStatus, what ++ "\n")
  | o => (1, o.message ++ "\n")

/-- Runs a program at a terminal. -/
def runProgram (c : CommandLine) (p : Program) (settings : Settings) (rounds : Nat) (disk : Disk)
    (input : String) : Execution :=
  let listener : Option Listener := if c.tracesLines then some {} else none
  let (o, m) := p.run settings listener rounds { disk, console := .ofTerminal input }
  let (status, message) := ending o
  { status
    output := m.world.console.terminalOutput
    errors := String.join (m.reports.reverse.map reportText) ++ message
    disk := m.world.disk }

/-- Compiles and runs the program of the command line. -/
def execute (c : CommandLine) (rounds : Nat) (disk : Disk) (input : String) : Execution :=
  match disk.readText c.file with
  | .error e => { status := 1, errors := becauseOf ("Reading " ++ c.file) e, disk }
  | .ok source =>
    match c.loadSettings disk with
    | .error message => { status := 1, errors := message, disk }
    | .ok settings =>
      match (c.toolchain disk).compile c.unitName source with
      | .error e => { status := rejection e, errors := e.message ++ "\n", disk }
      | .ok p => c.runProgram p settings rounds disk input

/-- Does what the words of a command line say. -/
def perform (words : List String) (rounds : Nat) (disk : Disk) (input : String) : Execution :=
  match ofWords? words with
  | some c => c.execute rounds disk input
  | none => { status := 2, errors := usage, disk }

end CommandLine

end Pascal
