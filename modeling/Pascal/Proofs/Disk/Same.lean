import Pascal.Disk

/-!
# Disks that hold the same

Where a path leads depends on which files and directories there are. What a file holds matters to
reading it alone. So opening a file goes the same way on disks of the same shape, and disks on which
every path leads to the same node cannot be told apart. A name that was opened leads to its file from then
on.
-/

namespace Pascal.Disk

variable {d e : Disk} {place path : Path}

section

variable {entries : List (Path × Node)} {node : Node}

theorem find?_replace_self (h : entries.any (·.1 == place)) :
    (entries.map fun e => if e.1 == place then (place, node) else e).find? (·.1 == place) =
      some (place, node) := by
  induction entries with
  | nil => cases h
  | cons entry entries ih =>
    rw [List.map_cons]
    by_cases hentry : entry.1 = place
    · simp [hentry]
    · rw [if_neg (by simpa using hentry), List.find?_cons_of_neg (by simpa using hentry)]
      exact ih (by simpa [hentry] using h)

theorem find?_replace_ne (h : path ≠ place) :
    (entries.map fun e => if e.1 == place then (place, node) else e).find? (·.1 == path) =
      entries.find? (·.1 == path) := by
  induction entries with
  | nil => rfl
  | cons entry entries ih =>
    rw [List.map_cons]
    by_cases hentry : entry.1 = place
    · rw [if_pos (beq_iff_eq.mpr hentry), List.find?_cons_of_neg (by simpa using h.symm), ih,
        List.find?_cons_of_neg (by simpa [hentry] using h.symm)]
    · rw [if_neg (by simpa using hentry), List.find?_cons, List.find?_cons, ih]

end

/-- The working directory stays a directory; any other path leads to what was put there last. -/
theorem node?_put (hplace : place ≠ []) (node : Node) (path : Path) :
    (d.put place node).node? path = if path = place then some node else d.node? path := by
  by_cases hroot : path = []
  · simp [node?, hroot, Ne.symm hplace]
  by_cases hpath : path = place
  · subst hpath
    rw [if_pos rfl, node?, if_neg (by simpa using hroot), put]
    split
    · next hany => rw [find?_replace_self hany]; rfl
    · next hnone =>
      have hnone : d.entries.find? (·.1 == path) = none :=
        List.find?_eq_none.mpr fun entry hmem hentry => hnone (List.any_eq_true.mpr ⟨entry, hmem, hentry⟩)
      simp [List.find?_append, hnone]
  · rw [if_neg hpath, node?, node?, put]
    split
    · rfl
    · split
      · rw [find?_replace_ne hpath]
      · simp [List.find?_append, Ne.symm hpath]

theorem node?_nil : d.node? [] = some .directory := rfl

/-- Every path leads to the same. -/
def Same (d e : Disk) : Prop := ∀ path, d.node? path = e.node? path

namespace Same

theorem refl (d : Disk) : Same d d := fun _ => rfl

theorem symm (h : Same d e) : Same e d := fun path => (h path).symm

theorem trans {f : Disk} (h : Same d e) (h' : Same e f) : Same d f :=
  fun path => (h path).trans (h' path)

theorem put (h : Same d e) (hplace : place ≠ []) (node : Node) :
    Same (d.put place node) (e.put place node) := by
  intro path
  rw [node?_put hplace, node?_put hplace, h path]

theorem bytes (h : Same d e) (place : Path) : d.bytes place = e.bytes place := by
  rw [Disk.bytes, Disk.bytes, h place]

theorem append (h : Same d e) (hplace : place ≠ []) (new : ByteArray) :
    Same (d.append place new) (e.append place new) := by
  rw [Disk.append, Disk.append, h.bytes place]
  exact h.put hplace _

end Same

/-- Whether a path leads to a file or to a directory. -/
inductive Kind where
  | file | directory

def Node.kind : Node → Kind
  | .file _ => .file
  | .directory => .directory

/-- What a disk looks like apart from the contents of its files. -/
def shape (d : Disk) (path : Path) : Option Kind := (d.node? path).map Node.kind

theorem Same.shape (h : Same d e) : d.shape = e.shape := by
  funext path
  rw [Disk.shape, Disk.shape, h path]

theorem shape_eq_file {bytes : ByteArray} (h : d.node? place = some (.file bytes)) :
    d.shape place = some .file := by
  rw [shape, h]
  rfl

/-- New contents of a file do not change the shape. -/
theorem shape_put (hplace : d.shape place = some .file) (bytes : ByteArray) :
    (d.put place (.file bytes)).shape = d.shape := by
  have hne : place ≠ [] := by
    rintro rfl
    simp [shape, node?_nil, Node.kind] at hplace
  funext path
  rw [shape, node?_put hne]
  split
  · next hpath => rw [hpath, hplace]; rfl
  · rfl

theorem walk_congr (h : d.shape = e.shape) (names : List String) (here : Path) :
    d.walk here names = e.walk here names := by
  induction names generalizing here with
  | nil => rfl
  | cons name rest ih =>
    have hnode := congrFun h (here ++ [name])
    unfold walk
    simp only [ih]
    cases rest with
    | nil => rfl
    | cons next rest =>
      simp only [shape] at hnode
      cases hd : d.node? (here ++ [name]) with
      | none =>
        rw [hd] at hnode
        rw [Option.map_eq_none_iff.mp hnode.symm]
      | some n =>
        rw [hd] at hnode
        obtain ⟨m, he, hkind⟩ := Option.map_eq_some_iff.mp hnode.symm
        rw [he]
        cases n <;> cases m <;> first | rfl | cases hkind

theorem locate_congr (h : d.shape = e.shape) (name : String) : d.locate name = e.locate name := by
  simp only [locate, walk_congr h]

theorem Same.readText (h : Same d e) (name : String) : d.readText name = e.readText name := by
  simp only [Disk.readText, Disk.read, locate_congr h.shape, h _]

/-- The place of a file that is opened for writing. -/
def opening (d : Disk) (name : String) : Except DiskError Path := do
  let (place, asDirectory) ← d.locate name
  match d.shape place with
  | some .directory => .error .isDirectory
  | some .file => if asDirectory then .error .notDirectory else .ok place
  | none => if asDirectory then .error .isDirectory else .ok place

/-- The disk once there is a file at a place. -/
def made (d : Disk) (place : Path) : Disk :=
  if (d.shape place).isSome then d else d.put place (.file .empty)

theorem Same.made (h : Same d e) (hplace : place ≠ []) : Same (d.made place) (e.made place) := by
  rw [Disk.made, Disk.made, h.shape]
  split
  · exact h
  · exact h.put hplace _

theorem opening_congr (h : d.shape = e.shape) (name : String) : d.opening name = e.opening name := by
  simp only [opening, locate_congr h, h]

theorem openFile_eq (d : Disk) (name : String) :
    d.openFile name = (d.opening name).map fun place => (place, d.made place) := by
  unfold openFile opening
  cases d.locate name with
  | error e => rfl
  | ok located =>
    obtain ⟨place, asDirectory⟩ := located
    simp only [Bind.bind, Except.bind]
    cases hnode : d.node? place with
    | none => cases asDirectory <;> simp [made, shape, hnode, Except.map]
    | some node =>
      cases node with
      | directory => simp [shape, hnode, Node.kind, Except.map]
      | file bytes => cases asDirectory <;> simp [made, shape, hnode, Node.kind, Except.map]

theorem createFile_eq (d : Disk) (name : String) :
    d.createFile name =
      (d.opening name).map fun place => (place, (d.made place).put place (.file .empty)) := by
  rw [createFile, openFile_eq]
  cases d.opening name <;> rfl

/-- What is opened for writing is what its name leads to, and no directory. -/
theorem opening_eq_ok {name : String} : d.opening name = .ok place ↔
    d.locate name = .ok (place, false) ∧ d.shape place ≠ some .directory := by
  unfold opening
  cases d.locate name with
  | error e => simp [Bind.bind, Except.bind]
  | ok located =>
    obtain ⟨place', asDirectory⟩ := located
    simp only [Bind.bind, Except.bind]
    constructor
    · intro h
      split at h
      · cases h
      all_goals
        next hshape =>
          cases asDirectory <;> cases h
          exact ⟨rfl, by simp [hshape]⟩
    · rintro ⟨⟨⟩, hshape⟩
      split
      · next hdirectory => exact absurd hdirectory hshape
      all_goals rfl

theorem opening_ne_nil {name : String} (h : d.opening name = .ok place) : place ≠ [] := by
  rintro rfl
  exact (opening_eq_ok.mp h).2 rfl

/-- There is a file at a place where one was opened. -/
theorem shape_made {name : String} (h : d.opening name = .ok place) :
    (d.made place).shape place = some .file := by
  unfold made
  split
  · next hsome =>
    obtain ⟨kind, hkind⟩ := Option.isSome_iff_exists.mp hsome
    cases kind with
    | file => exact hkind
    | directory => exact absurd hkind (opening_eq_ok.mp h).2
  · rw [shape, node?_put (opening_ne_nil h), if_pos rfl]
    rfl

/-- A file that was not there is on no way to itself. -/
theorem walk_put {names : List String} {here : Path} {name : String} (node : Node)
    (hnone : d.node? (here ++ [name]) = none) {way : Path} (hlast : names.getLast? ≠ some "")
    (h : d.walk way names = .ok (here, some name)) :
    (d.put (here ++ [name]) node).walk way names = .ok (here, some name) := by
  induction names generalizing way with
  | nil => cases h
  | cons first rest ih =>
    have hrest : rest.getLast? ≠ some "" := by
      cases rest with
      | nil => simp
      | cons next rest => rwa [List.getLast?_cons_cons] at hlast
    unfold walk at h ⊢
    split at h
    · next hstay => rw [if_pos hstay]; exact ih hrest h
    next hstay =>
    rw [if_neg hstay]
    split at h
    · next hup =>
      rw [if_pos hup]
      split at h
      · cases h
      · next hroot => rw [if_neg hroot]; exact ih hrest h
    next hup =>
    rw [if_neg hup]
    split at h
    · cases h
    next hlong =>
    rw [if_neg hlong]
    cases rest with
    | nil => exact h
    | cons next rest =>
      simp only at h ⊢
      cases hnode : d.node? (way ++ [first]) with
      | none =>
        rw [hnode] at h
        simp only at h
        split at h
        · next hall =>
          -- only a slash follows, and the last name is empty
          have hmem := List.getLast_mem (List.cons_ne_nil next rest)
          have hempty := of_decide_eq_true (List.all_eq_true.mp hall _ hmem)
          exact absurd (List.getLast?_eq_some_getLast (List.cons_ne_nil next rest) ▸ hempty ▸ rfl) hrest
        · cases h
      | some n =>
        have hne : way ++ [first] ≠ here ++ [name] := by
          intro heq
          rw [heq, hnone] at hnode
          cases hnode
        rw [hnode] at h
        rw [node?_put (by simp), if_neg hne, hnode]
        cases n with
        | file => cases h
        | directory => exact ih hrest h

/-- The name of an opened file leads to it afterwards, too. -/
theorem locate_made {name : String} (h : d.opening name = .ok place) :
    (d.made place).locate name = .ok (place, false) := by
  have hlocate := (opening_eq_ok.mp h).1
  have hne := opening_ne_nil h
  unfold made
  split
  · exact hlocate
  · next hsome =>
    have hnone : d.node? place = none := by simpa [shape] using hsome
    unfold locate at hlocate ⊢
    split at hlocate
    · cases hlocate
    next hnul =>
    rw [if_neg hnul]
    split at hlocate
    · cases hlocate
    next hempty =>
    rw [if_neg hempty]
    split at hlocate
    · cases hlocate
    next hlong =>
    rw [if_neg hlong]
    simp only at hlocate ⊢
    split at hlocate
    · cases hlocate
    next hroot =>
    rw [if_neg hroot]
    cases hwalk : d.walk [] (splitAt '/' name) with
    | error e => rw [hwalk] at hlocate; cases hlocate
    | ok walked =>
      obtain ⟨here, left⟩ := walked
      rw [hwalk] at hlocate
      cases left with
      | none => cases hlocate
      | some last =>
        simp only [Except.ok.injEq, Prod.mk.injEq] at hlocate
        obtain ⟨rfl, hslash⟩ := hlocate
        rw [walk_put (.file .empty) hnone (by simpa using hslash) hwalk]
        simp [hslash]

theorem node?_of_readText {name text : String} (hlocate : d.locate name = .ok (place, false))
    (h : d.readText name = .ok text) : d.node? place = some (.file text.toUTF8) := by
  simp only [readText, read, hlocate, Bind.bind, Except.bind] at h
  cases hnode : d.node? place with
  | none => rw [hnode] at h; cases h
  | some node =>
    rw [hnode] at h
    cases node with
    | directory => cases h
    | file bytes =>
      simp only [Bool.false_eq_true, if_false, String.fromUTF8?] at h
      by_cases hvalid : bytes.IsValidUTF8
      · rw [dif_pos hvalid] at h
        cases h
        rfl
      · rw [dif_neg hvalid] at h
        cases h

theorem node?_of_notFound {name : String} (hlocate : d.locate name = .ok (place, false))
    (h : d.readText name = .error .notFound) : d.node? place = none := by
  simp only [readText, read, hlocate, Bind.bind, Except.bind] at h
  cases hnode : d.node? place with
  | none => rfl
  | some node =>
    rw [hnode] at h
    cases node with
    | directory => cases h
    | file bytes =>
      simp only [Bool.false_eq_true, if_false] at h
      cases htext : String.fromUTF8? bytes <;> rw [htext] at h <;> cases h

end Pascal.Disk
