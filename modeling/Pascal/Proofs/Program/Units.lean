import Pascal.Proofs.Program.Bounded
import Pascal.Proofs.Run.Program

/-!
# The units of a program

A program that is compiled has each unit that it needs once, behind those that the unit uses. A run starts
the units in that order and ends them the other way round.
-/

namespace Pascal

namespace UnitCode

/-- The name of a unit in lower case. -/
def key (u : UnitCode) : String := Text.lower u.name

end UnitCode

namespace Toolchain

/-- A unit uses another one, both being among some units. -/
def Uses (t : Toolchain) (units : List UnitCode) (u v : UnitCode) : Prop :=
  u ∈ units ∧ v ∈ units ∧ v.key ∈ t.usedKeys u.name

/-- The units of a program that are needed for a source text, in an order in which they can start. -/
structure UnitsOrdered (t : Toolchain) (unit source : String) (units : List UnitCode) : Prop where
  /-- No unit is there twice. -/
  once : (units.map (·.key)).Nodup
  /-- The units are those that the source text uses, at once or through other units. -/
  needed : ∀ key, key ∈ units.map (·.key) ↔
    t.Reaches (units.map (·.name)) (t.programKeys unit source) key
  /-- What a unit uses stands in front of it. -/
  behind : ∀ before u after, units = before ++ u :: after →
    ∀ key ∈ t.usedKeys u.name, key ∈ before.map (·.key)

variable {t : Toolchain} {unit source : String} {units : List UnitCode}

/-- Names in order, the last one first, are names in order read from the other side. -/
theorem InOrder.behind {names : List String} (h : t.InOrder names) {after before : List String}
    {name : String} (hnames : names = after ++ name :: before) :
    ∀ key ∈ t.usedKeys name, key ∈ before.map Text.lower := by
  induction after generalizing names with
  | nil =>
    subst hnames
    exact h.2.1
  | cons other after ih =>
    subst hnames
    exact ih h.2.2 rfl

theorem InOrder.nodup {names : List String} (h : t.InOrder names) : (names.map Text.lower).Nodup := by
  induction names with
  | nil => exact List.nodup_nil
  | cons name names ih => exact List.nodup_cons.mpr ⟨h.1, ih h.2.2⟩

/-- Whatever units in order use is among them. -/
theorem InOrder.closed {names : List String} (h : t.InOrder names) {name key : String}
    (hname : name ∈ names) (hkey : key ∈ t.usedKeys name) : key ∈ names.map Text.lower := by
  obtain ⟨after, before, rfl⟩ := List.append_of_mem hname
  have hbefore := h.behind rfl key hkey
  rw [List.map_append, List.map_cons]
  exact List.mem_append_right _ (List.mem_cons_of_mem _ hbefore)

namespace UnitsOrdered

/-- A unit that is used stands before the one that uses it. -/
theorem sublist (h : t.UnitsOrdered unit source units) {u v : UnitCode} (huses : t.Uses units u v) :
    [v, u].Sublist units := by
  obtain ⟨hu, hv, hkey⟩ := huses
  obtain ⟨before, after, rfl⟩ := List.append_of_mem hu
  obtain ⟨w, hw, hwv⟩ := List.mem_map.mp (h.behind before u after rfl v.key hkey)
  have hsame : w = v :=
    List.inj_on_of_nodup_map h.once (List.mem_append_left _ hw) hv hwv
  subst hsame
  have hbefore : [w].Sublist before := List.singleton_sublist.mpr hw
  have hafter : [u].Sublist (u :: after) := List.singleton_sublist.mpr List.mem_cons_self
  exact hbefore.append hafter

/-- No unit uses itself, at once or through other units. -/
theorem acyclic (h : t.UnitsOrdered unit source units) (u : UnitCode) :
    ¬Relation.TransGen (t.Uses units) u u := by
  have hless : ∀ {u v}, t.Uses units u v →
      (units.map (·.key)).idxOf v.key < (units.map (·.key)).idxOf u.key := by
    rintro u v ⟨hu, -, hkey⟩
    obtain ⟨before, after, rfl⟩ := List.append_of_mem hu
    have hv := h.behind before u after rfl v.key hkey
    have honce := h.once
    rw [List.map_append, List.map_cons] at honce ⊢
    have hnot : u.key ∉ before.map (·.key) := by
      intro hmem
      exact (List.nodup_append.mp honce).2.2 _ hmem _ List.mem_cons_self rfl
    rw [List.idxOf_append_of_mem hv, List.idxOf_append_of_notMem hnot, List.idxOf_cons_self]
    exact Nat.lt_add_right 0 (List.idxOf_lt_length_of_mem hv)
  have hall : ∀ {u v}, Relation.TransGen (t.Uses units) u v →
      (units.map (·.key)).idxOf v.key < (units.map (·.key)).idxOf u.key := by
    intro u v hpath
    induction hpath with
    | single huses => exact hless huses
    | tail _ huses ih => exact (hless huses).trans ih
  exact fun hcycle => lt_irrefl _ (hall hcycle)

/-- Only the names of units matter. -/
theorem map (h : t.UnitsOrdered unit source units) {f : UnitCode → UnitCode}
    (hf : ∀ u, (f u).name = u.name) : t.UnitsOrdered unit source (units.map f) := by
  have hkeys : ∀ us : List UnitCode, (us.map f).map (·.key) = us.map (·.key) := by
    intro us
    rw [List.map_map]
    exact List.map_congr_left fun u _ => congrArg Text.lower (hf u)
  have hnames : (units.map f).map (·.name) = units.map (·.name) := by
    rw [List.map_map]
    exact List.map_congr_left fun u _ => hf u
  constructor
  · rw [hkeys]
    exact h.once
  · rw [hkeys, hnames]
    exact h.needed
  · intro before u after hunits key hkey
    obtain ⟨before', rest, rfl, rfl, hrest⟩ := List.map_eq_append_iff.mp hunits
    obtain ⟨u', after', rfl, rfl, -⟩ := List.map_eq_cons_iff.mp hrest
    rw [hf] at hkey
    rw [hkeys]
    exact h.behind before' u' after' rfl key hkey

end UnitsOrdered

/-- A session that has read a source text to its end has its units in order. -/
theorem unitsOrdered_code {s : Session} (hs : s.Settled t)
    (hadds : Session.Adds t (t.programKeys unit source) {} s) :
    t.UnitsOrdered unit source s.code.reverse := by
  have hnames : s.code.reverse.map (·.name) = s.names.reverse := List.map_reverse
  have hkeys : s.code.reverse.map (·.key) = (s.names.map Text.lower).reverse := by
    rw [Session.names, List.map_map, List.map_reverse]
    rfl
  have hsubset : s.names ⊆ s.code.reverse.map (·.name) := by
    rw [hnames]
    exact fun name hname => List.mem_reverse.mpr hname
  constructor
  · rw [hkeys, List.nodup_reverse]
    exact hs.order.nodup
  · intro key
    rw [hkeys, List.mem_reverse]
    constructor
    · intro hkey
      obtain ⟨name, hname, rfl⟩ := List.mem_map.mp hkey
      rcases hadds.reached name hname with hnone | hreached
      · cases hnone
      · exact hreached.mono hsubset (List.Subset.refl _)
    · intro hreached
      induction hreached with
      | root h => exact hadds.met _ h
      | step hname _ hkey _ =>
        rw [hnames, List.mem_reverse] at hname
        exact hs.order.closed hname hkey
  · intro before u after hunits key hkey
    have horder : s.names = (after.map (·.name)).reverse ++ u.name :: (before.map (·.name)).reverse := by
      have hreverse := congrArg (fun us => (us.map (·.name)).reverse) hunits
      simpa [hnames] using hreverse
    obtain ⟨name, hname, rfl⟩ := List.mem_map.mp (hs.order.behind horder key hkey)
    rw [List.mem_reverse] at hname
    obtain ⟨v, hv, rfl⟩ := List.mem_map.mp hname
    exact List.mem_map.mpr ⟨v, hv, rfl⟩

open Session in
theorem settled_empty (t : Toolchain) : Settled t {} where
  sound := ⟨fun _ _ => .refl, fun _ _ h => by simp at h, fun _ h => by simp at h⟩
  loaded _ _ h := by cases h
  known _ h := by cases h
  order := trivial

/-- The units of a program that is not folded yet are in order. -/
theorem compilePlain_units {p : Program} (h : t.compilePlain unit source = .ok p) :
    t.UnitsOrdered unit source p.units := by
  obtain ⟨hsettled, hadds, hscope⟩ := open_settled unit (settled_empty t) (.inl rfl)
  obtain ⟨⟨body, s⟩, hparse, h⟩ := bind_eq_ok.mp h
  dsimp only at h
  split at h
  · cases h
  · cases h
    obtain ⟨c, hparse⟩ := Group.parse_eq_ok hparse
    have hwaits : (Cursor.ofGroup (Group.assemble t.sources unit source)).Waits
        (Item.usedNames false (Group.assemble t.sources unit source).items) := rfl
    have hpasses := Parser.Meets.program (loadWithin_loads t _) (loadWithin_orders t _) hsettled hscope
      hwaits hparse
    exact unitsOrdered_code hpasses.settled (hadds.trans hpasses.done)

/-- The units of a program are in order. -/
theorem compile_units {p : Program} (h : t.compile unit source = .ok p) :
    t.UnitsOrdered unit source p.units := by
  obtain ⟨q, hq, rfl⟩ := compile_eq_ok h
  have horder := compilePlain_units hq
  split
  · exact horder.map fun u => rfl
  · exact horder

/-- Compiles a program with at most `depth` units loaded inside one another. -/
def compileWithin (t : Toolchain) (depth : Nat) (unit source : String) : Checked Program := do
  let (main, s) := Session.open_ t .program unit {}
  let (body, s) ← (Group.assemble t.sources unit source).parse
    (Parser.program t (t.loadWithin depth) main s)
  match s.arena.missingBodies with
  | f :: _ => throw (.scope (.missingBody f.name f.pos))
  | [] => t.folded { arena := s.arena, main, body, units := s.code.reverse }

/-- As many levels as `compile` has. -/
theorem compileWithin_load (t : Toolchain) (unit source : String) :
    t.compileWithin (t.sources.disk.entries.length + 1) unit source = t.compile unit source := by
  unfold compileWithin compile compilePlain load
  simp only [bind, Except.bind]
  cases (Group.assemble t.sources unit source).parse _ with
  | error e => rfl
  | ok r =>
    dsimp only
    cases r.2.arena.missingBodies with
    | nil => rfl
    | cons f fs => rfl

/-- With more levels than there are files the bound on the levels makes no difference. -/
theorem compileWithin_eq {depth : Nat} (hdepth : t.sources.disk.entries.length < depth) :
    t.compileWithin depth unit source = t.compile unit source := by
  obtain ⟨more, rfl⟩ := Nat.exists_eq_add_of_le hdepth
  obtain ⟨hsettled, -, -⟩ := open_settled unit (settled_empty t) (.inl rfl)
  have hslash : ∀ used ∈ Item.usedNames false (Group.assemble t.sources unit source).items,
      '/' ∉ used.toList :=
    fun used hused => Group.slash_notMem_usedNames (.inl rfl) hused
  have hbound := Nat.lt_succ_of_le
    (Session.card_pending_le t (Session.open_ t .program unit {}).2)
  have hagrees := loadWithin_agrees t (t.sources.disk.entries.length + 1) more
  have hread : (Parser.program t (t.loadWithin (t.sources.disk.entries.length + 1))
        (Session.open_ t .program unit {}).1 (Session.open_ t .program unit {}).2).Agrees
      (Cursor.Waits (Item.usedNames false (Group.assemble t.sources unit source).items))
      (Parser.program t (t.loadWithin (t.sources.disk.entries.length + 1 + more))
        (Session.open_ t .program unit {}).1 (Session.open_ t .program unit {}).2) :=
    Parser.Agrees.program (loadWithin_loads t _) (loadWithin_orders t _) hagrees hslash hsettled hbound
  have hparse := Group.parse_congr (hread (.ofGroup (Group.assemble t.sources unit source)) rfl)
  rw [← compileWithin_load]
  unfold compileWithin
  dsimp only
  rw [hparse]

/-- Units are loaded once, in the order in which they depend on each other. Reading them comes to an end
by itself: more levels than there are files make no difference, whatever uses what. If a source text
compiles, its units are those that it needs, each once and behind those that it uses, and none uses
itself through others. A run that is completed has gone through all stages, each unit after those it uses
at the start and before them at the end. -/
theorem compile_ordered (t : Toolchain) (unit source : String) :
    (∀ depth, t.sources.disk.entries.length < depth →
      t.compileWithin depth unit source = t.compile unit source) ∧
    ∀ p, t.compile unit source = .ok p →
      t.UnitsOrdered unit source p.units ∧
      (∀ u, ¬Relation.TransGen (t.Uses p.units) u u) ∧
      ∀ (l : Launch) (m : Machine),
        p.run l.settings l.listener l.rounds l.world = (.completed, m) →
          (∃ m', (p.env l).GoesThrough p.schedule (p.start l) m' ∧ m = m'.releaseAll) ∧
          p.schedule.Nodup ∧
          ∀ u v, t.Uses p.units u v →
            [.start v, .start u, .main, .finish u, .finish v].Sublist p.schedule := by
  refine ⟨fun depth hdepth => compileWithin_eq hdepth, fun p h => ?_⟩
  have horder := compile_units h
  refine ⟨horder, horder.acyclic, fun l m hrun => ⟨?_, ?_, fun u v huses => ?_⟩⟩
  · exact (p.run_completed_iff l m).mp hrun
  · exact Program.nodup_schedule horder.once.of_map
  · exact Program.sublist_schedule (horder.sublist huses)

/-- Two units, one of which uses the other one. -/
def pair : Toolchain where
  sources :=
    { disk := ⟨[
        (["base.pas"], .file "unit base; interface implementation initialization writeln(1) end.".toUTF8),
        (["top.pas"], .file "unit top; interface uses base; implementation end.".toUTF8)]⟩
      directories := [""] }
  libraries := Library.standard

/-- The hypotheses hold of a program that uses one of two units. -/
theorem compile_ordered_pair : ∃ (p : Program) (base top : UnitCode) (l : Launch) (m m' : Machine),
    pair.compileWithin 3 "main" "uses Top; begin end." = .ok p ∧
    pair.compile "main" "uses Top; begin end." = .ok p ∧ p.units = [base, top] ∧
    pair.Uses p.units top base ∧ p.run l.settings l.listener l.rounds l.world = (.completed, m) ∧
    (p.env l).GoesThrough p.schedule (p.start l) m' ∧
    [.start base, .start top, .main, .finish top, .finish base].Sublist p.schedule := by
  let l : Launch := ⟨{}, none, 100, { console := .ofInput "" }⟩
  have hcheck : (pair.compile "main" "uses Top; begin end.").toOption.any fun p =>
      p.units.map (·.name) == ["base", "Top"] &&
        (p.run l.settings l.listener l.rounds l.world).1 == .completed := by decide +kernel
  have hkeys : "base" ∈ pair.usedKeys "Top" := by decide +kernel
  obtain ⟨p, hp, hcheck⟩ := exists_ok_of_any hcheck
  obtain ⟨hnames, hrun⟩ := Bool.and_eq_true_iff.mp hcheck
  obtain ⟨base, rest, hunits, hbase, hrest⟩ := List.map_eq_cons_iff.mp (eq_of_beq hnames)
  obtain ⟨top, none, rfl, htop, hnone⟩ := List.map_eq_cons_iff.mp hrest
  cases List.map_eq_nil_iff.mp hnone
  have huses : pair.Uses p.units top base := by
    refine ⟨by simp [hunits], by simp [hunits], ?_⟩
    rw [htop, UnitCode.key, hbase]
    exact hkeys
  have hcompleted : p.run l.settings l.listener l.rounds l.world =
      (.completed, (p.run l.settings l.listener l.rounds l.world).2) :=
    Prod.ext (eq_of_beq hrun) rfl
  obtain ⟨hwithin, hordered⟩ := compile_ordered pair "main" "uses Top; begin end."
  obtain ⟨-, -, hruns⟩ := hordered p hp
  obtain ⟨⟨m', hthrough, -⟩, -, hsublist⟩ := hruns l _ hcompleted
  exact ⟨p, base, top, l, _, m', (hwithin 3 (by decide)).trans hp, hp, hunits, huses, hcompleted,
    hthrough, hsublist top base huses⟩

end Toolchain

end Pascal
