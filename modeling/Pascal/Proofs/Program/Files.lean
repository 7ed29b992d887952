import Pascal.Program.Compile
import Pascal.Proofs.Typing.Build

/-!
# The files of units

A name without a slash leads to files of that name only, whatever directories are searched. The text of a
unit is therefore in a file that tells the unit's name.
-/

namespace Pascal

namespace Text

theorem val_toLower {c : Char} (h : 'A'.val ≤ c.val ∧ c.val ≤ 'Z'.val) :
    c.toLower.val.toNat = c.val.toNat + 32 ∧ 65 ≤ c.val.toNat ∧ c.val.toNat ≤ 90 := by
  have hlower : c.toLower.val = c.val + 32 := congrArg Char.val (dif_pos h)
  have hrange : 65 ≤ c.val.toNat ∧ c.val.toNat ≤ 90 := h
  refine ⟨?_, hrange⟩
  rw [hlower, UInt32.toNat_add]
  apply Nat.mod_eq_of_lt
  change c.val.toNat + 32 < 2 ^ 32
  omega

theorem toLower_of_not {c : Char} (h : ¬('A'.val ≤ c.val ∧ c.val ≤ 'Z'.val)) : c.toLower = c :=
  dif_neg h

/-- Lowering a letter leaves none that can be lowered. -/
theorem toLower_toLower (c : Char) : c.toLower.toLower = c.toLower := by
  by_cases h : 'A'.val ≤ c.val ∧ c.val ≤ 'Z'.val
  · obtain ⟨hlower, hrange⟩ := val_toLower h
    apply toLower_of_not
    intro hcap
    have hcap : 65 ≤ c.toLower.val.toNat ∧ c.toLower.val.toNat ≤ 90 := hcap
    omega
  · rw [toLower_of_not h, toLower_of_not h]

theorem toLower_eq_slash {c : Char} (h : c.toLower = '/') : c = '/' := by
  by_cases hc : 'A'.val ≤ c.val ∧ c.val ≤ 'Z'.val
  · obtain ⟨hlower, hrange⟩ := val_toLower hc
    rw [h] at hlower
    have hslash : '/'.val.toNat = 47 := rfl
    omega
  · rwa [toLower_of_not hc] at h

theorem toList_lower (s : String) : (lower s).toList = s.toList.map Char.toLower :=
  String.toList_ofList

@[simp] theorem lower_lower (s : String) : lower (lower s) = lower s := by
  apply String.toList_inj.mp
  simp only [toList_lower, List.map_map]
  exact List.map_congr_left fun c _ => toLower_toLower c

theorem slash_notMem_lower {s : String} (h : '/' ∉ s.toList) : '/' ∉ (lower s).toList := by
  rw [toList_lower]
  intro hmem
  obtain ⟨c, hc, hlower⟩ := List.mem_map.mp hmem
  rw [toLower_eq_slash hlower] at hc
  exact h hc

end Text

namespace Disk

/-- One character of a text that is split. -/
private def splitStep (sep c : Char) (p : List Char × List String) : List Char × List String :=
  if c = sep then ([], String.ofList p.1 :: p.2) else (c :: p.1, p.2)

private theorem splitAt_eq (sep : Char) (s : String) :
    splitAt sep s = String.ofList (s.toList.foldr (splitStep sep) ([], [])).1 ::
      (s.toList.foldr (splitStep sep) ([], [])).2 := rfl

private theorem foldr_splitStep_of_notMem {sep : Char} {cs : List Char} (h : sep ∉ cs) :
    cs.foldr (splitStep sep) ([], []) = (cs, []) := by
  induction cs with
  | nil => rfl
  | cons c cs ih =>
    obtain ⟨hc, hcs⟩ := not_or.mp fun hmem => h (List.mem_cons.mpr hmem)
    rw [List.foldr_cons, ih hcs, splitStep, if_neg (Ne.symm hc)]

private theorem foldr_splitStep_concat (sep : Char) (cs piece : List Char) (pieces : List String)
    (last : String) : ∃ piece' pieces',
      cs.foldr (splitStep sep) (piece, pieces ++ [last]) = (piece', pieces' ++ [last]) := by
  induction cs with
  | nil => exact ⟨piece, pieces, rfl⟩
  | cons c cs ih =>
    obtain ⟨piece', pieces', ih⟩ := ih
    rw [List.foldr_cons, ih, splitStep]
    split
    · exact ⟨[], String.ofList piece' :: pieces', rfl⟩
    · exact ⟨c :: piece', pieces', rfl⟩

/-- What stands behind the last separator is the last piece. -/
theorem splitAt_getLast {sep : Char} {s name : String} (hname : sep ∉ name.toList)
    (h : s = name ∨ ∃ before, s.toList = before ++ sep :: name.toList) :
    ∃ names, splitAt sep s = names ++ [name] := by
  rcases h with rfl | ⟨before, h⟩
  · refine ⟨[], ?_⟩
    rw [splitAt_eq, foldr_splitStep_of_notMem hname]
    simp
  · obtain ⟨piece, pieces, hfold⟩ := foldr_splitStep_concat sep before [] [] name
    refine ⟨String.ofList piece :: pieces, ?_⟩
    have hbehind : (sep :: name.toList).foldr (splitStep sep) ([], []) = ([], [name]) := by
      rw [List.foldr_cons, foldr_splitStep_of_notMem hname, splitStep, if_pos rfl]
      simp
    rw [splitAt_eq, h, List.foldr_append, hbehind]
    rw [List.nil_append] at hfold
    rw [hfold, List.cons_append]

/-- A name that means no directory by itself. -/
def IsFileName (name : String) : Prop := name ≠ "" ∧ name ≠ "." ∧ name ≠ ".."

/-- A walk ends at the last name of its path. -/
theorem walk_concat {d : Disk} {here place : Path} {names : List String} {name : String}
    {last? : Option String} (hname : IsFileName name)
    (h : d.walk here (names ++ [name]) = .ok (place, last?)) : last? = some name := by
  obtain ⟨hempty, hdot, hup⟩ := hname
  induction names generalizing here with
  | nil =>
    rw [List.nil_append, walk, if_neg (by simp [hempty, hdot]), if_neg hup] at h
    split at h
    · cases h
    · cases h
      rfl
  | cons n names ih =>
    have hall : ¬(names ++ [name]).all (· = "") := by simp [hempty]
    obtain ⟨r, rs, hrest⟩ : ∃ r rs, names ++ [name] = r :: rs := List.exists_cons_of_ne_nil (by simp)
    rw [hrest] at hall ih
    rw [List.cons_append, hrest, walk] at h
    split at h
    · exact ih h
    split at h
    · split at h
      · cases h
      · exact ih h
    split at h
    · cases h
    -- a name behind this one is not empty, so that what is not there is missing
    split at h
    · cases h
    · cases h
    · exact ih h

/-- A path with a file name at its end leads to that name. -/
theorem locate_eq_ok {d : Disk} {path name : String} {place : Path} {asDirectory : Bool}
    (hname : IsFileName name) (hpath : ∃ names, splitAt '/' path = names ++ [name])
    (h : d.locate path = .ok (place, asDirectory)) : place.getLast? = some name := by
  obtain ⟨names, hnames⟩ := hpath
  unfold locate at h
  split at h
  · cases h
  split at h
  · cases h
  split at h
  · cases h
  dsimp only at h
  split at h
  · cases h
  split at h
  · cases h
  · next here hwalk =>
    rw [hnames] at hwalk
    cases walk_concat hname hwalk
  · next here last hwalk =>
    cases h
    rw [hnames] at hwalk
    cases walk_concat hname hwalk
    exact List.getLast?_concat

/-- A file that can be read is on the disk. -/
theorem exists_entry_of_read {d : Disk} {path name : String} {bytes : ByteArray}
    (hname : IsFileName name) (hpath : ∃ names, splitAt '/' path = names ++ [name])
    (h : d.read path = .ok bytes) : ∃ e ∈ d.entries, e.1.getLast? = some name := by
  obtain ⟨⟨place, asDirectory⟩, hlocate, h⟩ := bind_eq_ok.mp h
  have hlast := locate_eq_ok hname hpath hlocate
  dsimp only at h
  split at h
  · cases h
  · cases h
  · next found hnode =>
    have hnonempty : ¬place.isEmpty := by
      intro hempty
      rw [List.isEmpty_iff.mp hempty] at hlast
      cases hlast
    rw [node?, if_neg hnonempty] at hnode
    obtain ⟨e, hfind, -⟩ := Option.map_eq_some_iff.mp hnode
    refine ⟨e, List.mem_of_find?_eq_some hfind, ?_⟩
    have hplace : e.1 = place := by simpa using List.find?_some hfind
    rwa [hplace]

/-- The path of a name in a directory ends with the name. -/
theorem splitAt_join {directory name : String} (hname : '/' ∉ name.toList) :
    ∃ names, splitAt '/' (join directory name) = names ++ [name] := by
  apply splitAt_getLast hname
  unfold join
  split
  · exact .inl rfl
  · split
    · next hslash =>
      obtain ⟨before, hbefore⟩ := List.getLast?_eq_some_iff.mp hslash
      refine .inr ⟨before, ?_⟩
      simp [hbefore]
    · exact .inr ⟨directory.toList, by simp⟩

end Disk

/-- A text that is found under a name without a slash is in a file of that name. -/
theorem Sources.exists_entry_of_load {s : Sources} {name : String} {text : Except DiskError String}
    (hslash : '/' ∉ name.toList) (hname : Disk.IsFileName name) (h : s.load name = some text) :
    ∃ e ∈ s.disk.entries, e.1.getLast? = some name := by
  obtain ⟨path, hsearch, -⟩ := Option.map_eq_some_iff.mp h
  have hhead : ¬name.toList.head? = some '/' := by
    intro hhead
    exact hslash (List.mem_of_head? hhead)
  rw [Disk.search?, if_neg hhead] at hsearch
  have hfile := List.find?_some hsearch
  obtain ⟨directory, -, rfl⟩ := List.mem_map.mp (List.mem_of_find?_eq_some hsearch)
  unfold Disk.isFile at hfile
  split at hfile
  · next bytes hread => exact Disk.exists_entry_of_read hname (Disk.splitAt_join hslash) hread
  · cases hfile

/-- The name in lower case of the unit that a file can hold: that of the file without the end `.pas`. -/
def Disk.Path.unitKey (path : Disk.Path) : String :=
  let name := (Text.lower (path.getLast?.getD "")).toList
  String.ofList (name.take (name.length - 4))

namespace Toolchain

/-- The text of a unit comes from a file that tells the name of the unit. -/
theorem exists_entry_of_unitSource {t : Toolchain} {name source : String} {pos : Position}
    (hslash : '/' ∉ name.toList) (h : t.unitSource name pos = .ok source) :
    ∃ e ∈ t.sources.disk.entries, Disk.Path.unitKey e.1 = Text.lower name := by
  have hfile : ∀ {base : String} {text : Except DiskError String}, '/' ∉ base.toList →
      Text.lower base = Text.lower name → t.sources.load (base ++ ".pas") = some text →
      ∃ e ∈ t.sources.disk.entries, Disk.Path.unitKey e.1 = Text.lower name := by
    intro base text hbase hlower hload
    have hnoslash : '/' ∉ (base ++ ".pas").toList := by simp [hbase]
    have hname : Disk.IsFileName (base ++ ".pas") := by
      have hlong : 4 ≤ (base ++ ".pas").toList.length := by simp
      refine ⟨?_, ?_, ?_⟩ <;> intro he <;> rw [he] at hlong <;> revert hlong <;> decide
    obtain ⟨e, he, hlast⟩ := Sources.exists_entry_of_load hnoslash hname hload
    refine ⟨e, he, ?_⟩
    have hkey : (Text.lower (base ++ ".pas")).toList = (Text.lower base).toList ++ ".pas".toList := by
      simp only [Text.toList_lower, String.toList_append, List.map_append]
      rfl
    rw [Disk.Path.unitKey, hlast, Option.getD_some, hkey, List.take_left' (by simp), String.ofList_toList,
      hlower]
  unfold unitSource at h
  dsimp only at h
  cases hwritten : t.sources.load (name ++ ".pas") with
  | some text => exact hfile hslash rfl hwritten
  | none =>
    rw [hwritten, Option.none_or] at h
    cases hlowered : t.sources.load (Text.lower name ++ ".pas") with
    | some text => exact hfile (Text.slash_notMem_lower hslash) (Text.lower_lower name) hlowered
    | none =>
      rw [hlowered] at h
      cases h

end Toolchain

end Pascal
