import Pascal.CommandLine.Execute

/-! # The program itself

The files below the working directory are read first, the command runs on what was read, and the files
that it changed are written in the end. -/

open Pascal

/-- Loops are granted more rounds than anyone waits for. -/
private def grantedRounds : Nat := 1000000000000000

/-- Adds everything in a directory to a disk. What cannot be read is left out. -/
private partial def readInto (disk : Disk) (place : Disk.Path) (directory : String) : IO Disk := do
  let mut disk := disk
  for entry in ← (← IO.FS.realPath directory).readDir do
    let path := place ++ [entry.fileName]
    match (← entry.path.symlinkMetadata).type with
    | .dir => disk ← readInto (disk.addDirectory path) path entry.path.toString
    | _ =>
      try disk := disk.addFile path (← IO.FS.readBinFile entry.path)
      catch _ => pure ()
  return disk

/-- Whether a file of one disk is missing from another one or has other contents there. -/
private def isChanged (old : Disk) (path : Disk.Path) (bytes : ByteArray) : Bool :=
  match old.node? path with
  | some (.file before) => before.data != bytes.data
  | _ => true

private def writeChanges (old new : Disk) : IO Unit := do
  for (path, node) in new.entries do
    match node with
    | .file bytes =>
      if isChanged old path bytes then IO.FS.writeBinFile ("/".intercalate path) bytes
    | .directory => pure ()

def main (words : List String) : IO UInt32 := do
  let disk ← readInto .empty [] "."
  let input := (String.fromUTF8? (← (← IO.getStdin).readBinToEnd)).getD ""
  let e := CommandLine.perform words grantedRounds disk input
  (← IO.getStdout).putStr e.output
  (← IO.getStderr).putStr e.errors
  writeChanges disk e.disk
  return UInt32.ofNat e.status
