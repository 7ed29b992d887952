/-! # Files and directories

A disk is the tree below the working directory. Paths are resolved step by step, so that every way in
which a path can fail to name a file has its own error. What lies outside of the tree is not there. -/

namespace Pascal

inductive DiskError where
  | notFound
  | notDirectory
  | isDirectory
  | nameTooLong
  | nameHoldsNul
  | notText
deriving DecidableEq, Repr

def DiskError.message : DiskError → String
  | notFound => "No such file or directory (os error 2)"
  | notDirectory => "Not a directory (os error 20)"
  | isDirectory => "Is a directory (os error 21)"
  | nameTooLong => "File name too long (os error 36)"
  | nameHoldsNul => "file name contained an unexpected NUL byte"
  | notText => "stream did not contain valid UTF-8"

namespace Disk

inductive Node where
  | file (bytes : ByteArray)
  | directory

/-- The names on the way from the working directory to a file or directory below it. -/
abbrev Path := List String

end Disk

structure Disk where
  entries : List (Disk.Path × Disk.Node) := []

namespace Disk

def empty : Disk := {}

/-- What a path leads to. The working directory itself is always there. -/
def node? (d : Disk) (path : Path) : Option Node :=
  if path.isEmpty then some .directory else (d.entries.find? (fun e => e.1 == path)).map (·.2)

/-- Puts a node in the place of what the path led to before. -/
def put (d : Disk) (path : Path) (node : Node) : Disk :=
  if d.entries.any (fun e => e.1 == path) then
    ⟨d.entries.map (fun e => if e.1 == path then (path, node) else e)⟩
  else ⟨d.entries ++ [(path, node)]⟩

def splitAt (sep : Char) (s : String) : List String :=
  let (piece, pieces) := s.toList.foldr
    (fun c (piece, pieces) =>
      if c = sep then ([], String.ofList piece :: pieces) else (c :: piece, pieces))
    (([], []) : List Char × List String)
  String.ofList piece :: pieces

/-- Adds a directory and those above it. -/
def addDirectory (d : Disk) (path : Path) : Disk :=
  (List.range path.length).foldl
    (fun d k =>
      let above := path.take (k + 1)
      if (d.node? above).isSome then d else d.put above .directory) d

/-- The names of a path in the order of its text. -/
def Path.ofText (s : String) : Path := (splitAt '/' s).filter (fun n => n != "" && n != ".")

/-- Adds a file and the directories above it. -/
def addFile (d : Disk) (path : Path) (bytes : ByteArray) : Disk :=
  (d.addDirectory path.dropLast).put path (.file bytes)

/-- Walks down from `here`, which is a directory. Each name but the last has to lead to a directory;
the result is the directory that holds the last name, and that name. Nothing is left for a path that
ends in a directory's own name. -/
def walk (d : Disk) (here : Path) : List String → Except DiskError (Path × Option String)
  | [] => .ok (here, none)
  | name :: rest =>
    if name = "" ∨ name = "." then walk d here rest
    else if name = ".." then
      if here.isEmpty then .error .notFound else walk d here.dropLast rest
    else if 255 < name.utf8ByteSize then .error .nameTooLong
    else match rest with
      | [] => .ok (here, some name)
      | _ :: _ =>
        match d.node? (here ++ [name]) with
        | none => if rest.all (· = "") then .ok (here, some name) else .error .notFound
        | some (.file _) => .error .notDirectory
        | some .directory => walk d (here ++ [name]) rest

/-- The place that a path names: the path below the working directory, and whether it has to be a
directory because of a slash at its end. -/
def locate (d : Disk) (path : String) : Except DiskError (Path × Bool) :=
  if path.toList.contains (Char.ofNat 0) then .error .nameHoldsNul
  else if path = "" then .error .notFound
  else if 4095 < path.utf8ByteSize then .error .nameTooLong
  else
    let names := splitAt '/' path
    if names.head? = some "" then .error .notFound
    else match walk d [] names with
      | .error e => .error e
      | .ok (here, none) => .ok (here, true)
      | .ok (here, some name) => .ok (here ++ [name], names.getLast? == some "")

/-- The contents of a file. -/
def read (d : Disk) (path : String) : Except DiskError ByteArray := do
  let (place, asDirectory) ← d.locate path
  match d.node? place with
  | none => .error .notFound
  | some .directory => .error .isDirectory
  | some (.file bytes) => if asDirectory then .error .notDirectory else .ok bytes

/-- The contents of a file as text. -/
def readText (d : Disk) (path : String) : Except DiskError String := do
  match String.fromUTF8? (← d.read path) with
  | some s => .ok s
  | none => .error .notText

def isFile (d : Disk) (path : String) : Bool :=
  match d.read path with
  | .ok _ => true
  | .error _ => false

/-- Opens a file for writing; one that is not there is made. The result names it. -/
def openFile (d : Disk) (path : String) : Except DiskError (Path × Disk) := do
  let (place, asDirectory) ← d.locate path
  match d.node? place with
  | some .directory => .error .isDirectory
  | some (.file _) => if asDirectory then .error .notDirectory else .ok (place, d)
  | none => if asDirectory then .error .isDirectory else .ok (place, d.put place (.file .empty))

/-- Opens a file for writing and removes what it held. -/
def createFile (d : Disk) (path : String) : Except DiskError (Path × Disk) := do
  let (place, d) ← d.openFile path
  return (place, d.put place (.file .empty))

/-- The contents of a file that is known to be there. -/
def bytes (d : Disk) (place : Path) : ByteArray :=
  match d.node? place with
  | some (.file bytes) => bytes
  | _ => .empty

def padTo (bytes : ByteArray) (size : Nat) : ByteArray :=
  bytes ++ ⟨Array.replicate (size - bytes.size) 0⟩

/-- The bytes with `new` in place of what stood from `offset` on; a gap before them holds zeros. -/
def overwrite (old : ByteArray) (offset : Nat) (new : ByteArray) : ByteArray :=
  padTo (old.extract 0 offset) offset ++ new ++ old.extract (offset + new.size) old.size

def writeAt (d : Disk) (place : Path) (offset : Nat) (new : ByteArray) : Disk :=
  d.put place (.file (overwrite (d.bytes place) offset new))

def append (d : Disk) (place : Path) (new : ByteArray) : Disk :=
  d.put place (.file (d.bytes place ++ new))

/-- The path of a file in a directory. A path from the root stays as it is. -/
def join (directory name : String) : String :=
  if name.toList.head? = some '/' ∨ directory = "" then name
  else if directory.toList.getLast? = some '/' then directory ++ name
  else directory ++ "/" ++ name

/-- The first of the directories that holds a file of that name gives its path. -/
def search? (d : Disk) (directories : List String) (name : String) : Option String :=
  if name.toList.head? = some '/' then (if d.isFile name then some name else none)
  else (directories.map (join · name)).find? d.isFile

end Disk

end Pascal
