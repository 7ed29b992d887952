import Pascal.Text.Name

/-! # The words of the command line -/

namespace Pascal

structure CommandLine where
  /-- The source file of the program. -/
  file : String
  /-- Further directories for units and include files. -/
  includes : List String := []
  /-- Whether constant expressions are folded. -/
  folds : Bool := true
  /-- The file with the settings of the run. -/
  settings : Option String := none
  /-- Whether every line is reported before it runs. -/
  tracesLines : Bool := false
  /-- How much is told about the way to the result. -/
  verbosity : Nat := 0
deriving DecidableEq, Repr

namespace CommandLine

/-- What has been read of the words so far. -/
structure Draft where
  file : Option String := none
  includes : List String := []
  folds : Bool := true
  settings : Option String := none
  tracesLines : Bool := false
  verbosity : Nat := 0
  /-- The option that the next word belongs to. -/
  awaits : Option String := none
  /-- Whether all further words are names of files. -/
  filesOnly : Bool := false

namespace Draft

/-- The one file that has to be named. -/
def addFile (d : Draft) (name : String) : Option Draft :=
  if d.file.isNone && name != "" then some { d with file := some name } else none

def addInclude (d : Draft) (directory : String) : Option Draft :=
  if directory = "" then none else some { d with includes := d.includes ++ [directory] }

/-- The settings can be named once. -/
def addSettings (d : Draft) (name : String) : Option Draft :=
  if d.settings.isNone && name != "" then some { d with settings := some name } else none

/-- A switch can be set once. -/
def addSwitch (d : Draft) (name : String) : Option Draft :=
  if name = "--no-fold" && d.folds then some { d with folds := false }
  else if name = "--trace-lines" && !d.tracesLines then some { d with tracesLines := true }
  else if name = "--verbose" then some { d with verbosity := d.verbosity + 1 }
  else none

/-- An option that needs a value. -/
def addOption (d : Draft) (name value : String) : Option Draft :=
  if name = "--include" then d.addInclude value
  else if name = "--config" then d.addSettings value
  else none

/-- The letters behind one dash. The letter of an option takes the others as its value; where none are
left the option waits for the next word. -/
def readLetters (d : Draft) : List Char → Option Draft
  | [] => some d
  | 'v' :: cs => readLetters { d with verbosity := d.verbosity + 1 } cs
  | ['I'] => some { d with awaits := some "--include" }
  | 'I' :: '=' :: cs => d.addInclude (String.ofList cs)
  | 'I' :: cs => d.addInclude (String.ofList cs)
  | _ => none

/-- A word that begins with two dashes. An equals sign may join a value to it. -/
def readLong (d : Draft) (word : List Char) : Option Draft :=
  match word.span (· != '=') with
  | (name, '=' :: value) => d.addOption (String.ofList name) (String.ofList value)
  | (name, _) =>
    let name := String.ofList name
    if name = "--include" || name = "--config" then some { d with awaits := some name }
    else d.addSwitch name

/-- Reads one word. An option does not take a word that begins with a dash for its value. -/
def readWord (d : Draft) (word : String) : Option Draft :=
  if d.filesOnly then d.addFile word
  else match d.awaits, word.toList with
    | some name, ['-'] => { d with awaits := none }.addOption name word
    | some _, '-' :: _ => none
    | some name, _ => { d with awaits := none }.addOption name word
    | none, ['-', '-'] => some { d with filesOnly := true }
    | none, '-' :: '-' :: cs => d.readLong ('-' :: '-' :: cs)
    | none, '-' :: c :: cs => d.readLetters (c :: cs)
    | none, _ => d.addFile word

/-- The command line that has been read, if nothing is missing. -/
def finish (d : Draft) : Option CommandLine := do
  let file ← d.file
  if d.awaits.isSome then none
  return { file, includes := d.includes, folds := d.folds, settings := d.settings,
           tracesLines := d.tracesLines, verbosity := d.verbosity }

end Draft

/-- The meaning of the words, if they have one. -/
def ofWords? (words : List String) : Option CommandLine := do
  (← words.foldlM Draft.readWord {}).finish

def components (path : String) : List String :=
  path.splitOn "/"

/-- The directory of the source file, which may be empty. -/
def directory (c : CommandLine) : String := "/".intercalate (components c.file).dropLast

/-- The name of the source file without its last ending. -/
def unitName (c : CommandLine) : String :=
  let name := ((components c.file).getLast?.getD "").toList
  match name.reverse.span (· != '.') with
  | (_, '.' :: stem) => if stem.isEmpty then String.ofList name else String.ofList stem.reverse
  | _ => String.ofList name

/-- How the command line is used. -/
def usage : String :=
  "Usage: pascal [-I <DIR>]... [--no-fold] [--config <FILE>] [--trace-lines] [-v]... <FILE>\n"

end CommandLine

end Pascal
