import Pascal.Group
import Pascal.Disk

/-! # From tokens to groups

The groups that are open at a time form a stack above the root. Tokens are fed to it one by one, and an
include directive feeds another source text in its place. -/

namespace Pascal

/-- A group whose closer has not come yet; its items are kept last first. -/
structure OpenGroup where
  kind : GroupKind
  opened : Token
  items : List Item := []

namespace OpenGroup

def add (g : OpenGroup) (i : Item) : OpenGroup := { g with items := i :: g.items }

def close (g : OpenGroup) (closed : Token) : Item := .group g.kind g.opened closed g.items.reverse

end OpenGroup

/-- The root and the groups open inside it, the innermost first. -/
structure Nesting where
  root : OpenGroup
  inner : List OpenGroup := []
  /-- The end of the source text, once it is reached. -/
  ended : Option Token := none

namespace Nesting

/-- Whether more tokens are wanted. -/
inductive Flow where
  | go | stop
deriving DecidableEq

def top (n : Nesting) : OpenGroup := n.inner.head?.getD n.root

/-- Adds an item to the innermost group. -/
def add (n : Nesting) (i : Item) : Nesting :=
  match n.inner with
  | [] => { n with root := n.root.add i }
  | g :: gs => { n with inner := g.add i :: gs }

/-- Records an error in every open group. -/
def inject (n : Nesting) (e : GroupError) : Nesting :=
  { n with root := n.root.add (.error e), inner := n.inner.map (·.add (.error e)) }

/-- Closes the innermost group and makes it an item of the next one. -/
def closeTop (n : Nesting) (closed : Token) : Nesting :=
  match n.inner with
  | [] => n
  | g :: gs => { n with inner := gs }.add (g.close closed)

/-- Closes the innermost groups, each with a copy of its opener. -/
def closeSkipped (n : Nesting) : Nat → Nesting
  | 0 => n
  | k + 1 => (n.closeTop n.top.opened).closeSkipped k

/-- Takes one token. A closer that fits a group further out closes those it skips; one that fits no
group stops everything. -/
def feed (n : Nesting) (t : Token) : Nesting × Flow :=
  match GroupKind.openedBy? t.kind with
  | some kind => ({ n with inner := ⟨kind, t, []⟩ :: n.inner }, .go)
  | none =>
    if !GroupKind.isCloser t.kind then (n.add (.token t), .go)
    else match n.inner.findIdx? (fun g => g.kind.closedBy t.kind) with
      | none => (n.inject (.strayCloser t.describe t.pos), .stop)
      | some 0 => (n.closeTop t, .go)
      | some skipped =>
        let e := .mismatchedCloser n.top.kind n.top.opened.pos t.describe t.pos
        (((n.inject e).closeSkipped skipped).closeTop t, .go)

/-- Feeds tokens up to the first fault, the first stop or the end of the source text. -/
def feedAll (including : String → Position → Nesting → Nesting × Flow)
    (atEnd : Token → Nesting → Nesting × Flow) :
    List (Except LexError Token) → Nesting → Nesting × Flow
  | [], n => (n, .go)
  | .error e :: _, n => (n.inject (.lex e), .stop)
  | .ok t :: rest, n =>
    match t.kind with
    | .eof => atEnd t n
    | .includes name =>
      match including name t.pos n with
      | (n, .go) => feedAll including atEnd rest n
      | (n, .stop) => (n, .stop)
    | _ =>
      match n.feed t with
      | (n, .go) => feedAll including atEnd rest n
      | (n, .stop) => (n, .stop)

end Nesting

/-- Where source texts come from: a disk and the directories to search. -/
structure Sources where
  disk : Disk
  directories : List String

/-- The text of a source file, unless it is missing or cannot be read. -/
def Sources.load (s : Sources) (name : String) : Option (Except DiskError String) :=
  (s.disk.search? s.directories name).map s.disk.readText

namespace Nesting

/-- Feeds the source text that a directive asks for; `levels` more may be nested in each other. -/
def includeFrom (sources : Sources) : Nat → String → Position → Nesting → Nesting × Flow
  | 0, _, pos, n => (n.inject (.includeTooDeep pos), .stop)
  | levels + 1, name, pos, n =>
    match sources.load name with
    | none => (n.inject (.includeNotFound name pos), .stop)
    | some (.error e) => (n.inject (.includeUnreadable name e.message pos), .stop)
    | some (.ok text) =>
      feedAll (includeFrom sources levels) (fun _ n => (n, .go)) (Token.scan name text) n

/-- Reports the innermost group that the end of input leaves open, and marks the end. -/
def finish (eof : Token) (n : Nesting) : Nesting :=
  let n := match n.inner with
    | [] => n
    | g :: _ => n.inject (.unclosed g.kind g.opened.pos eof.pos)
  { n with ended := some eof }

/-- The root with everything that is still open closed by a copy of its opener. -/
def unwind (n : Nesting) : List Item := (n.closeSkipped n.inner.length).root.items.reverse

end Nesting

/-- The groups of a source text. The root opens at its start; it closes at its end, or at its start as
well if the end was not reached. -/
def Group.assemble (sources : Sources) (unit source : String) : Group :=
  let start : Token := ⟨.eof, Position.start unit⟩
  let n := (Nesting.feedAll (Nesting.includeFrom sources maxIncludeDepth)
    (fun eof n => (n.finish eof, .stop)) (Token.scan unit source) { root := ⟨.root, start, []⟩ }).1
  ⟨.root, start, n.ended.getD start, n.unwind⟩

end Pascal
