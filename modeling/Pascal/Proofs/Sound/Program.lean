import Pascal.Proofs.Fold.Program
import Pascal.Proofs.Frames.Run
import Pascal.Proofs.Sound.Exec
import Pascal.Proofs.Sound.Standard
import Pascal.Proofs.Ty.Bounds
import Pascal.Proofs.Typing.Stmt

/-!
# Runs of typed programs

A run of a typed program, folded or not, goes through typed machines only, and all its code results in
values of its type.
-/

namespace Pascal

variable {α : Type} {d : Discipline} {a : Arena} {p : Program} {l : Launch}

namespace Setting

/-- All code of a run is typed, and so is the machine that the run begins with. -/
structure Starts (S : Setting) (p : Program) (l : Launch) : Prop where
  sound : S.Sound
  env : S.env = p.env l
  stages : ∀ s ∈ p.stages, s.Typed S.discipline S.arena
  start : ∃ cells, (p.start l).Typed S cells

namespace Starts

variable {S : Setting}

theorem kept (h : S.Starts p l) : S.contract.Kept (p.env l) := h.env ▸ h.sound.kept

/-- A run is planned with typed machines for all its statements, and it fails for lawful reasons. -/
theorem plan_meets (h : S.Starts p l) : (p.plan l).Meets (p.env l) S.contract
    (fun r => (∃ cells, (Run.after r).Typed S cells) ∧
      ∀ f pos m, r = .error (.fault f pos) m → f.Lawful S.discipline) (p.start l) := by
  refine .planStages (I := fun m => ∃ cells, m.Typed S cells) (fun s hs m hm => ?_) h.start
    fun m hm => ⟨hm, fun _ _ _ he => by cases he⟩
  obtain ⟨cells, hm⟩ := hm
  refine ⟨cells, ⟨by simp, hm, h.stages s hs⟩, fun r hr => ?_⟩
  have hr : Run.Sound S m.active cells (fun _ _ => True) r := hr
  cases r with
  | ok flow m' => exact hr.typed
  | error e m' =>
    refine ⟨hr.typed, fun f pos m'' he => ?_⟩
    injection he with he
    exact hr.2.2 f pos he

/-- All calls of a run are made with typed code on typed machines. -/
theorem before (h : S.Starts p l) {t : Task α} {m : Machine} (ht : p.Reaches l t m) :
    ∃ cells, S.contract.before cells t m := ht.before h.kept h.plan_meets

/-- All calls of a run result in what the type of their code promises. -/
theorem result (h : S.Starts p l) {t : Task α} {m : Machine} (ht : p.Reaches l t m) :
    ∃ cells, m.Typed S cells ∧
      Run.Sound S m.active cells (fun cells' => t.code.Results S cells') (t.perform (p.env l) m) := by
  obtain ⟨cells, hb⟩ := h.before ht
  exact ⟨cells, hb.2.1, Contract.Kept.perform h.kept t cells m hb⟩

/-- All machines that a run goes through are typed. -/
theorem machine (h : S.Starts p l) {m : Machine} (hm : p.Reachable l m) : ∃ cells, m.Typed S cells := by
  cases hm with
  | start => exact h.start
  | begins ht =>
    obtain ⟨cells, hm, -⟩ := h.result ht
    exact ⟨cells, hm⟩
  | ends ht =>
    obtain ⟨cells, -, hr⟩ := h.result ht
    exact hr.typed

theorem fault (h : S.Starts p l) {f : Fault} {pos : Option Position}
    (hrun : (p.run l.settings l.listener l.rounds l.world).1 = .failed f pos) :
    f.Lawful S.discipline := by
  have hend := p.perform_plan h.kept h.plan_meets
  rw [p.run_eq] at hrun
  cases hr : (p.plan l).perform (p.env l) (p.start l) with
  | ok x m =>
    rw [hr] at hrun
    cases hrun
  | error e m =>
    rw [hr] at hrun hend
    cases e with
    | exhausted => cases hrun
    | fault f' pos' =>
      have hf := hend.2 f' pos' m rfl
      cases f' <;> cases hrun <;> exact hf

end Starts

end Setting

namespace Program

/-- The storage of a program begins with the initial values of its variables. -/
theorem start_typed (hp : a.Alike p.arena) (hn : a.Nested) (ha : a.Sound d)
    (hw : l.world.store = {}) : ∃ cells, (p.start l).Typed ⟨d, a, p.env l⟩ cells := by
  have hempty : l.world.store.Typed [] := hw ▸ Store.Typed.empty
  obtain ⟨cells, -, hstore, hwritten, hframes⟩ :=
    globalFrames_typed hp hn ha.entities hempty fun _ ht => by simp at ht
  refine ⟨cells, hstore, hwritten, fun f hf => hframes f ?_⟩
  rcases List.mem_append.mp hf with hf | hf
  · exact hf
  · cases hf

/-- Whether no open array is passed on anywhere in a program. -/
def isClosed (p : Program) : Bool :=
  (p.arena.scopes.toList.all fun s => s.vars.all fun v => v.ty.pointsClosed) &&
    (p.stages ++ p.arena.functions.toList.filterMap (·.body)).all fun s =>
      s.all (Expr.closes p.arena) (fun _ => true) (Stmt.closes p.arena)

theorem closes_of_isClosed (h : p.isClosed) : p.Closes d := by
  simp only [isClosed, Bool.and_eq_true, List.all_eq_true, List.mem_append, List.mem_filterMap,
    Array.mem_toList_iff] at h
  obtain ⟨hvars, hstmts⟩ := h
  refine ⟨fun _ scope key v hv => ?_, fun _ => hstmts _ (.inl (mem_stages.mpr (.inl rfl))),
    fun u hu s hs _ => hstmts s (.inl (mem_stages.mpr (.inr ⟨u, hu, hs⟩))), fun id s hs _ => ?_⟩
  · cases hscope : p.arena.scopes[scope]? with
    | none => simp [Arena.scope, hscope, Scope.entity?, Scope.find?, default] at hv
    | some sc =>
      rw [Arena.scope, hscope] at hv
      exact hvars sc (Array.mem_of_getElem? hscope) v (Scope.mem_vars hv)
  · cases hfunction : p.arena.functions[id]? with
    | none => simp [Arena.function, hfunction, default] at hs
    | some f =>
      rw [Arena.function, hfunction] at hs
      exact hstmts s (.inr ⟨f, Array.mem_of_getElem? hfunction, hs⟩)

variable {ranges : Bool} {libraries : List Library}

/-- A typed program starts with typed code and typed storage, whether it is folded or not. -/
theorem Typed.starts (h : p.Typed d) (hp : p.Elaborated ranges libraries)
    (hr : ∀ l ∈ libraries, ∀ r ∈ l.routines, r.Sound d) (hw : l.world.store = {}) (folds : Bool) :
    Setting.Starts ⟨d, p.arena, Program.env (if folds then p.fold else p) l⟩
      (if folds then p.fold else p) l := by
  have hn : p.arena.Nested := hp.arena.nested .empty
  have hh : p.arena.Headed := hp.arena.headed .empty .empty
  have hnatives : ∀ (id : Nat) r, p.arena.natives[id]? = some r → r.Sound d := by
    intro id r hid
    obtain ⟨l, hl, hmem⟩ := hp.arena.native_mem hid
    exact hr l hl r hmem
  have hstages : ∀ s ∈ p.stages, s.Typed d p.arena := by
    intro s hs
    rcases mem_stages.mp hs with rfl | ⟨u, hu, hs⟩
    · exact h.body
    · exact h.units u hu s hs
  cases folds with
  | false =>
    have halike : p.arena.Alike p.arena := ⟨rfl, rfl, fun _ => rfl, rfl, rfl⟩
    exact ⟨⟨halike, h.arena, hn, hh, h.functions, hnatives⟩, rfl, hstages,
      start_typed halike hn h.arena hw⟩
  | true =>
    refine ⟨⟨p.alike_fold, h.arena, hn, hh, fun id s hs => ?_, hnatives⟩, rfl, fun s hs => ?_,
      start_typed p.alike_fold hn h.arena hw⟩
    · have hbody := (p.heading_fold id).2
      rw [show (p.fold.arena.function id).body = some s from hs] at hbody
      obtain ⟨s', hs', rfl⟩ := Option.map_eq_some_iff.mp hbody.symm
      exact (h.functions id s' hs').fold
    · rw [show (if true = true then p.fold else p) = p.fold from rfl, p.stages_fold] at hs
      obtain ⟨s', hs', rfl⟩ := List.mem_map.mp hs
      exact (hstages s' hs').fold

end Program

/-- The storage that a program can name, with the types that it is declared with: its variables, the
elements of arrays, and what pointers lead to. -/
inductive Program.Names (p : Program) (l : Launch) (m : Machine) : Ref → Ty → Prop where
  | declared {f : Frame} {slot : String × Ref} {t : Ty} (hf : f ∈ (p.env l).globals ++ m.active)
      (hslot : slot ∈ f.slots) (ht : p.arena.varTy? ⟨f.scope, slot.1⟩ = some t) :
      Names p l m slot.2 t
  | element {r : Ref} {t : Ty} {range : Subrange} (h : Names p l m r (.array t range)) (index : Int) :
      Names p l m (r.element index) t
  | target {r r' : Ref} {t : Ty} (h : Names p l m r (.pointer t))
      (hr : m.world.store.get r = .ok (.pointer (some r'))) : Names p l m r' t

/-- On a typed machine, storage that can be named is storage of the type that it is declared with. -/
theorem Program.Names.shows {S : Setting} (hp : S.arena.Alike p.arena) (henv : S.env = p.env l)
    {m : Machine} {cells : List Ty} (hm : m.Typed S cells) {r : Ref} {t : Ty} (h : p.Names l m r t) :
    ∃ view, r.Shows S.discipline cells view t := by
  induction h with
  | @declared f slot t hf hslot ht =>
    obtain ⟨u, hu, hshows, -⟩ := hm.frames f (henv ▸ hf) slot hslot
    cases (hp.varTy? _ ▸ ht).symm.trans hu
    exact ⟨_, hshows⟩
  | element _ index ih =>
    obtain ⟨view, hshows⟩ := ih
    exact ⟨view, hshows.element index⟩
  | target _ hr ih =>
    obtain ⟨view, hshows⟩ := ih
    have hgives := Ref.Shows.get hm.store hshows
    rw [hr] at hgives
    obtain ⟨target, he, htarget⟩ := hgives
    cases he
    exact ⟨false, .of_hasType (htarget _ rfl)⟩

/-- Whether a main program without units leaves a value with a property in a variable of a type. -/
def Program.leaves (p : Program) (l : Launch) (t : Ty) (P : Value → Bool) : Bool :=
  let m := Run.after (Task.perform (p.env l) ⟨.stmt p.body, [], l.settings.maxCallDepth⟩ (p.start l))
  p.units.isEmpty && (p.env l).globals.any fun f => f.slots.any fun slot =>
    p.arena.varTy? ⟨f.scope, slot.1⟩ == some t && (m.world.store.get slot.2).toOption.any P

theorem Program.names_of_leaves {t : Ty} {P : Value → Bool} (h : p.leaves l t P) :
    p.units = [] ∧ ∃ m r v, p.Reachable l m ∧ p.Names l m r t ∧ m.world.store.get r = .ok v ∧ P v := by
  obtain ⟨hunits, h⟩ := Bool.and_eq_true_iff.mp h
  obtain ⟨f, hf, h⟩ := List.any_eq_true.mp h
  obtain ⟨slot, hslot, h⟩ := List.any_eq_true.mp h
  obtain ⟨ht, h⟩ := Bool.and_eq_true_iff.mp h
  obtain ⟨v, hv, hP⟩ := exists_ok_of_any h
  have hunits := List.isEmpty_iff.mp hunits
  exact ⟨hunits, _, slot.2, v, .ends (Toolchain.reaches_body hunits l),
    .declared (List.mem_append_left _ hf) hslot (eq_of_beq ht), hv, hP⟩

namespace Value

/-- Whether a value is an array with the bounds of a range. -/
def spans (r : Subrange) : Value → Bool
  | array lower items => lower == r.lower && items.length == r.length
  | _ => false

/-- Whether a value is of the kind of a type, whatever the bounds of its arrays are. -/
def IsOf : Ty → Value → Prop
  | .basic b, v => v.basic? = some b
  | .array element _, v => ∃ lower items, v = array lower items ∧ ∀ item ∈ items, item.IsOf element
  | .pointer _, v => ∃ target, v = pointer target
  | .text, v => ∃ file, v = text file
  | .nil, v => v = pointer none
  | .varargs _, _ | .any, _ => True

theorem HasType.isOf {cells : List Ty} {bounds : Bool} {t : Ty} {v : Value}
    (h : v.HasType cells (t.outline bounds)) : v.IsOf t := by
  induction t generalizing v with
  | array element r ih =>
    obtain ⟨lower, items, rfl, -, hitems⟩ := h
    exact ⟨lower, items, rfl, fun item hi => ih (hitems item hi)⟩
  | pointer t =>
    obtain ⟨target, rfl, -⟩ := h
    exact ⟨target, rfl⟩
  | _ => exact h

end Value

namespace Toolchain

variable {t : Toolchain} {unit source : String}

/-- A program that compiles was built without ranges where the text of it and of its units holds none. -/
theorem compile_elaborated (h : t.compile unit source = .ok p) {ranges : Bool}
    (hfree : ranges = false → t.IsRangeFree unit source ∧ ∀ u ∈ p.units, t.UnitIsRangeFree u.name) :
    ∃ q, t.compilePlain unit source = .ok q ∧ p = (if t.folds then q.fold else q) ∧
      q.Elaborated ranges t.libraries := by
  obtain ⟨q, hq, rfl⟩ := compile_eq_ok h
  refine ⟨q, hq, rfl, compilePlain_elaborated hq fun hf => ⟨(hfree hf).1, fun u hu => ?_⟩⟩
  have hnamed := (hfree hf).2
  split at hnamed
  · exact hnamed { u with
      initialization := u.initialization.map Stmt.fold
      finalization := u.finalization.map Stmt.fold } (List.mem_map_of_mem hu)
  · exact hnamed u hu

/-- A program that compiles starts with typed code and typed storage. Where bounds count this asks that
the program holds no ranges and passes on no open arrays. -/
theorem compile_starts (h : t.compile unit source = .ok p) (ranges : Bool)
    (hranges : d.takesRanges = false → ranges = false)
    (hfree : ranges = false → t.IsRangeFree unit source ∧ ∀ u ∈ p.units, t.UnitIsRangeFree u.name)
    (hclosed : ∀ q, t.compilePlain unit source = .ok q → q.Closes d)
    (hl : ∀ l ∈ t.libraries, l.Fits d ∧ ∀ r ∈ l.routines, r.Sound d) (hw : l.world.store = {}) :
    ∃ a : Arena, a.Alike p.arena ∧ Setting.Starts ⟨d, a, p.env l⟩ p l := by
  obtain ⟨q, hq, rfl, hbuild⟩ := compile_elaborated h hfree
  have htyped := hbuild.typed hranges (fun l hmem => (hl l hmem).1) (hclosed q hq)
  refine ⟨q.arena, ?_, htyped.starts hbuild (fun l hmem => (hl l hmem).2) hw t.folds⟩
  split
  · exact q.alike_fold
  · exact ⟨rfl, rfl, fun _ => rfl, rfl, rfl⟩

/-- Declared bounds are kept. Where a program holds no ranges in array constructors, assigns no open
array to a parameter that is passed by reference, and has no pointers to open arrays, everything that is
declared as an array with bounds holds an array with these bounds at every point of a run: variables,
parameters, elements of arrays and what pointers lead to. Where 64 bits hold the number of indices from
`lo` to `hi`, an array that is declared with these bounds has a first item at `lo` and an item for each
index. -/
theorem compile_bounds (h : t.compile unit source = .ok p) (hfree : t.IsRangeFree unit source)
    (hunits : ∀ u ∈ p.units, t.UnitIsRangeFree u.name)
    (hclosed : ∀ q, t.compilePlain unit source = .ok q → q.isClosed)
    (hl : ∀ l ∈ t.libraries, l.Fits { bounds := true } ∧ ∀ r ∈ l.routines, r.Sound { bounds := true })
    (hw : l.world.store = {}) {m : Machine} (hm : p.Reachable l m) {r : Ref} {element : Ty}
    {range : Subrange} (hr : p.Names l m r (.array element range))
    {v : Value} (hv : m.world.store.get r = .ok v) :
    (range.isOpen = false → v.spans range) ∧
    ∀ lo hi : Int64, Subrange.between? lo hi = some range →
      hi.toInt - lo.toInt + 1 < 0x8000000000000000 →
      ∃ items, v = .array lo items ∧ (items.length : Int) = hi.toInt - lo.toInt + 1 := by
  obtain ⟨a, ha, hstarts⟩ := compile_starts (d := { bounds := true }) h false (fun _ => rfl)
    (fun _ => ⟨hfree, hunits⟩) (fun q hq => q.closes_of_isClosed (hclosed q hq)) hl hw
  obtain ⟨cells, hm⟩ := hstarts.machine hm
  obtain ⟨view, hshows⟩ := hr.shows ha rfl hm
  have hgives := Ref.Shows.get hm.store hshows
  rw [hv] at hgives
  obtain ⟨lower, items, rfl, hadmits, -⟩ := hgives
  refine ⟨fun hrange => ?_, fun lo hi hbetween hsize => ?_⟩
  · obtain ⟨rfl, hlength⟩ := hadmits hrange
    simp [Value.spans, hlength]
  · obtain ⟨hrange, rfl, -, hexact⟩ := Subrange.between?_closed hbetween hsize
    obtain ⟨rfl, hlength⟩ := hadmits hrange
    exact ⟨items, rfl, hlength ▸ hexact⟩

/-- A program that changes items of an array through a parameter and through a pointer. -/
def reaching : String :=
  "type row = array[1..3] of integer; var a: row; q: ^row;
   procedure fill(var x: array of integer); begin x[2] := 7 end;
   begin fill(a); q := @a; q^[1] := 4 end."

/-- The hypotheses hold of a program that changes an array in two ways. -/
theorem compile_bounds_reached : ∃ (p : Program) (l : Launch) (m : Machine) (r : Ref) (v : Value),
    standard.compile "test" reaching = .ok p ∧
    p.Reachable l m ∧ p.Names l m r (.array .integer { lower := 1, size := 3 }) ∧
    m.world.store.get r = .ok v ∧ ∃ items, v = .array 1 items ∧ items.length = 3 := by
  let l : Launch := ⟨{}, none, 100, { console := .ofInput "" }⟩
  have hleaves : (standard.compile "test" reaching).toOption.any
      (·.leaves l (.array .integer { lower := 1, size := 3 }) fun _ => true) := by decide +kernel
  have hclosed : (standard.compilePlain "test" reaching).toOption.all (·.isClosed) := by decide +kernel
  obtain ⟨p, hp, hleaves⟩ := exists_ok_of_any hleaves
  obtain ⟨hunits, m, r, v, hm, hr, hv, -⟩ := Program.names_of_leaves hleaves
  have hclosed : ∀ q, standard.compilePlain "test" reaching = .ok q → q.isClosed := fun q hq => by
    rw [hq] at hclosed
    exact hclosed
  have hbounds := compile_bounds hp (by decide +kernel) (by simp [hunits]) hclosed
    (fun l hmem => ⟨Library.standard_fits l hmem, Library.standard_sound l hmem⟩) rfl hm hr hv
  obtain ⟨items, rfl, hlength⟩ := hbounds.2 1 3 rfl (by decide)
  exact ⟨p, l, m, r, _, hp, hm, hr, hv, items, rfl, Int.ofNat_inj.mp hlength⟩

/-- A program that assigns an array to a parameter without bounds. -/
def replacing : String :=
  "var a: array[1..3] of integer; b: array[0..1] of integer;
   procedure fill(var x: array of integer); begin x := b end;
   begin fill(a) end."

/-- A parameter that is passed by reference without bounds can be assigned an array with other bounds
than those of the variable behind it. -/
theorem compile_bounds_replaced : ∃ (p : Program) (l : Launch) (m : Machine) (r : Ref) (v : Value),
    standard.compile "test" replacing = .ok p ∧
    standard.IsRangeFree "test" replacing ∧
    p.Reachable l m ∧ p.Names l m r (.array .integer { lower := 1, size := 3 }) ∧
    m.world.store.get r = .ok v ∧ v.spans { lower := 1, size := 3 } = false := by
  let l : Launch := ⟨{}, none, 100, { console := .ofInput "" }⟩
  have hleaves : (standard.compile "test" replacing).toOption.any
      (·.leaves l (.array .integer { lower := 1, size := 3 }) fun v =>
        !v.spans { lower := 1, size := 3 }) := by decide +kernel
  obtain ⟨p, hp, hleaves⟩ := exists_ok_of_any hleaves
  obtain ⟨-, m, r, v, hm, hr, hv, hspans⟩ := Program.names_of_leaves hleaves
  exact ⟨p, l, m, r, v, hp, by decide +kernel, hm, hr, hv, by simpa using hspans⟩

/-- Types are kept up to bounds. At every point of a run, all storage that a program can name holds
values of the kind that it is declared with, and an expression gives a value of the kind of its type. No
run breaks a rule that compiled programs keep, but that an offset can come out negative: in an array
without items that begins at the least 64-bit integer, the index of the last item goes round to the
greatest one. A run finds a value of a wrong kind only where a character has no code, where a variable
cannot be read from text, or where the ends of a range are no ordinals, which takes an array constructor
with a range. -/
theorem compile_sound (h : t.compile unit source = .ok p)
    (hl : ∀ ranges, ∀ l ∈ t.libraries,
      l.Fits { ranges } ∧ ∀ r ∈ l.routines, r.Sound { ranges } ∧ r.Heeds)
    (hw : l.world.store = {}) :
    (∀ m, p.Reachable l m → ∀ r ty v, p.Names l m r ty → m.world.store.get r = .ok v → v.IsOf ty) ∧
    (∀ e chain depth m v m', p.Reaches l ⟨.expr e, chain, depth⟩ m →
      e.eval (p.env l) ((p.env l).callWithin depth) chain m = .ok v m' → v.IsOf e.ty) ∧
    ∀ f pos, (p.run l.settings l.listener l.rounds l.world).1 = .failed f pos →
      (∀ what, f = .internal what → what = "negative offset") ∧
      ∀ expected found, f = .invalidValue expected found →
        expected = "character code" ∨
        expected = "readable variable" ∧ (found = "array" ∨ found = "pointer" ∨ found = "text") ∨
        expected = "ordinal" ∧
          ¬(t.IsRangeFree unit source ∧ ∀ u ∈ p.units, t.UnitIsRangeFree u.name) := by
  have hstarts : ∀ ranges : Bool, (ranges = false → t.IsRangeFree unit source ∧
      ∀ u ∈ p.units, t.UnitIsRangeFree u.name) →
      ∃ a : Arena, a.Alike p.arena ∧ Setting.Starts ⟨{ ranges }, a, p.env l⟩ p l := fun ranges hfree =>
    compile_starts h ranges (by simp [Discipline.takesRanges]) hfree
      (fun q _ => Program.closes_of_kinds rfl q)
      (fun l hmem => ⟨(hl ranges l hmem).1, fun r hr => ((hl ranges l hmem).2 r hr).1⟩) hw
  have hheeds := compile_heeds h fun l hmem r hr => ((hl true l hmem).2 r hr).2
  have hstrict := hstarts false
  obtain ⟨a, ha, hstarts⟩ := hstarts true nofun
  refine ⟨fun m hm r ty v hr hv => ?_, fun e chain depth m v m' he hv => ?_, fun f pos hf => ?_⟩
  · obtain ⟨cells, hm⟩ := hstarts.machine hm
    obtain ⟨view, hshows⟩ := hr.shows ha rfl hm
    have hgives := Ref.Shows.get hm.store hshows
    rw [hv] at hgives
    exact hgives.isOf
  · obtain ⟨cells, -, hresult⟩ := hstarts.result he
    rw [show Task.perform (p.env l) ⟨.expr e, chain, depth⟩ m = .ok v m' from hv] at hresult
    obtain ⟨-, cells', -, -, htype⟩ := hresult
    exact Value.HasType.isOf htype
  · refine ⟨?_, ?_⟩
    · rintro what rfl
      have hscoping := (compile_scoped h).run_sound hheeds l hf
      rcases hstarts.fault hf with hscoped | hwhat
      · rw [hscoping] at hscoped
        cases hscoped
      · exact hwhat
    · rintro expected found rfl
      rcases hstarts.fault hf with hcode | hread | ⟨hordinal, -⟩
      · exact .inl hcode
      · exact .inr (.inl hread)
      · refine .inr (.inr ⟨hordinal, fun hfree => ?_⟩)
        -- Without ranges there is a stricter discipline, in which no fault speaks of ordinals.
        obtain ⟨_, -, hstrict⟩ := hstrict fun _ => hfree
        rcases hstrict.fault hf with rfl | ⟨rfl, -⟩ | ⟨-, htakes⟩
        · exact absurd hordinal (by decide)
        · exact absurd hordinal (by decide)
        · cases htakes

/-- The hypotheses hold of a program that converts the items of an array. -/
theorem compile_sound_converted : ∃ (p : Program) (l : Launch) (m : Machine) (r : Ref) (v : Value),
    standard.compile "test" "var a: array[1..2] of double; begin a := [1, 2] end." = .ok p ∧
    p.Reachable l m ∧ p.Names l m r (.array .double { lower := 1, size := 2 }) ∧
    m.world.store.get r = .ok v ∧ v.IsOf (.array .double { lower := 1, size := 2 }) := by
  let text := "var a: array[1..2] of double; begin a := [1, 2] end."
  let l : Launch := ⟨{}, none, 100, { console := .ofInput "" }⟩
  have hleaves : (standard.compile "test" text).toOption.any
      (·.leaves l (.array .double { lower := 1, size := 2 }) fun _ => true) := by decide +kernel
  obtain ⟨p, hp, hleaves⟩ := exists_ok_of_any hleaves
  obtain ⟨-, m, r, v, hm, hr, hv, -⟩ := Program.names_of_leaves hleaves
  have hl : ∀ ranges, ∀ l ∈ standard.libraries,
      l.Fits { ranges } ∧ ∀ r ∈ l.routines, r.Sound { ranges } ∧ r.Heeds :=
    fun ranges l hmem => ⟨Library.standard_fits l hmem, fun r hr =>
      ⟨Library.standard_sound l hmem r hr, Library.standard_heeds l hmem r hr⟩⟩
  exact ⟨p, l, m, r, v, hp, hm, hr, hv, (compile_sound hp hl rfl).1 m hm r _ v hr hv⟩

/-- A range in an array constructor of strings has ends that are no ordinals. -/
theorem compile_sound_range : ∃ (p : Program) (l : Launch) (pos : Option Position),
    standard.compile "test" "var a: array[1..3] of string; begin a := ['a'..'c'] end." = .ok p ∧
    (p.run l.settings l.listener l.rounds l.world).1 =
      .failed (.invalidValue "ordinal" "string") pos := by
  let text := "var a: array[1..3] of string; begin a := ['a'..'c'] end."
  let l : Launch := ⟨{}, none, 100, { console := .ofInput "" }⟩
  have hfails : (standard.compile "test" text).toOption.any fun p =>
      (p.run l.settings l.listener l.rounds l.world).1 ==
        .failed (.invalidValue "ordinal" "string") (some ⟨"test", 1, 37⟩) := by decide +kernel
  obtain ⟨p, hp, hfails⟩ := exists_ok_of_any hfails
  exact ⟨p, l, _, hp, eq_of_beq hfails⟩

end Toolchain

end Pascal
