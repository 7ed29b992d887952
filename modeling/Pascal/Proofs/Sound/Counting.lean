import Pascal.Proofs.Machine.Outcomes
import Pascal.Proofs.Machine.References
import Pascal.Proofs.Machine.Report
import Pascal.Proofs.Sound.Program

/-!
# Loops that count

A `for` loop evaluates its bounds once. Its counter then takes all ordinals from the first to the last one,
in order and once each, whatever the body does to the variable or to what the bounds were computed from.
`Run.Counts` says how the rounds go. A round of a compiled program cannot begin only where a character has
no code or where the counter is a parameter whose target is gone.
-/

namespace Pascal

namespace Direction

/-- The ordinals from the first to the last one, in the order in which a counter takes them. -/
def ordinals : Direction → Int → Int → List Int
  | up, first, last => (List.range (last - first + 1).toNat).map fun k : Nat => first + k
  | down, first, last => (List.range (first - last + 1).toNat).map fun k : Nat => first - k

variable {d : Direction} {first last k : Int}

theorem mem_ordinals_up : k ∈ up.ordinals first last ↔ first ≤ k ∧ k ≤ last := by
  simp only [ordinals, List.mem_map, List.mem_range]
  constructor
  · rintro ⟨n, hn, rfl⟩
    omega
  · exact fun h => ⟨(k - first).toNat, by omega, by omega⟩

theorem mem_ordinals_down : k ∈ down.ordinals first last ↔ last ≤ k ∧ k ≤ first := by
  simp only [ordinals, List.mem_map, List.mem_range]
  constructor
  · rintro ⟨n, hn, rfl⟩
    omega
  · exact fun h => ⟨(first - k).toNat, by omega, by omega⟩

theorem between_of_mem_ordinals (h : k ∈ d.ordinals first last) :
    first ≤ k ∧ k ≤ last ∨ last ≤ k ∧ k ≤ first := by
  cases d with
  | up => exact .inl (mem_ordinals_up.mp h)
  | down => exact .inr (mem_ordinals_down.mp h)

/-- An ordinal that a counter takes is followed by another one, unless it is the last. -/
theorem add_step_mem_ordinals (h : k ∈ d.ordinals first last) (hk : k ≠ last) :
    k + d.step ∈ d.ordinals first last := by
  cases d with
  | up =>
    rw [mem_ordinals_up] at h ⊢
    simp only [step]
    omega
  | down =>
    rw [mem_ordinals_down] at h ⊢
    simp only [step]
    omega

/-- In each direction there is one ordinal for each round, a step from the one before. -/
theorem ordinals_eq_map_range :
    d.ordinals first last = (List.range (d.rounds first last)).map fun k : Nat => first + k * d.step := by
  cases d with
  | up => simp only [ordinals, rounds, step, Int.mul_one]
  | down => simp only [ordinals, rounds, step, Int.mul_neg_one, Int.sub_eq_add_neg]

theorem ordinals_of_rounds_zero (h : d.rounds first last = 0) : d.ordinals first last = [] := by
  rw [ordinals_eq_map_range, h]
  rfl

theorem ordinals_of_rounds_succ {n : Nat} (h : d.rounds first last = n + 1) :
    d.ordinals first last = first :: d.ordinals (first + d.step) last ∧
      d.rounds (first + d.step) last = n := by
  have hnext : d.rounds (first + d.step) last = n := by
    cases d <;> simp only [rounds, step] at h ⊢ <;> omega
  refine ⟨?_, hnext⟩
  rw [ordinals_eq_map_range, ordinals_eq_map_range, h, hnext, List.range_succ_eq_map, List.map_cons,
    List.map_map]
  refine congrArg₂ _ (by simp) (List.map_congr_left fun k _ => ?_)
  cases d <;> simp only [Function.comp_apply, step] <;> omega

end Direction

/-!
## The counter

The ordinals of a loop are numbers of 64 bits, and so is its counter. Rounds that are counted beforehand
are those in which the counter is compared with the last ordinal.
-/

namespace Direction

/-- Whether a counter of 64 bits has passed its last value. -/
def passed (d : Direction) (last current : Int64) : Bool :=
  match d with
  | up => last < current
  | down => current < last

def next (d : Direction) (current : Int64) : Int64 :=
  match d with
  | up => current + 1
  | down => current - 1

variable {d : Direction} {last current : Int64}

theorem rounds_of_passed (h : d.passed last current) : d.rounds current.toInt last.toInt = 0 := by
  cases d <;> simp only [passed, decide_eq_true_eq, Int64.lt_iff_toInt_lt] at h <;>
    simp only [rounds] <;> omega

/-- Before its last value, a counter goes on by one step of 64 bits. -/
theorem toInt_next (h : ¬ d.passed last current) (hne : current ≠ last) :
    (d.next current).toInt = current.toInt + d.step := by
  have hne : current.toInt ≠ last.toInt := fun he => hne (Int64.toInt_inj.mp he)
  have hone : (1 : Int64).toInt = 1 := rfl
  have hmin := last.le_toInt
  have hmax := last.toInt_lt
  have hmin' := current.le_toInt
  have hmax' := current.toInt_lt
  cases d with
  | up =>
    simp only [passed, decide_eq_true_eq, Int64.lt_iff_toInt_lt] at h
    rw [next, step, Int64.toInt_add, hone, Int.bmod_def]
    omega
  | down =>
    simp only [passed, decide_eq_true_eq, Int64.lt_iff_toInt_lt] at h
    rw [next, step, Int64.toInt_sub, hone, Int.bmod_def]
    omega

theorem rounds_of_not_passed (h : ¬ d.passed last current) :
    d.rounds current.toInt last.toInt = d.rounds (current.toInt + d.step) last.toInt + 1 := by
  cases d <;> simp only [passed, decide_eq_true_eq, Int64.lt_iff_toInt_lt] at h <;>
    simp only [rounds, step] <;> omega

theorem rounds_next_lt (h : ¬ d.passed last current) (hne : current ≠ last) :
    d.rounds (d.next current).toInt last.toInt < d.rounds current.toInt last.toInt := by
  rw [toInt_next h hne, rounds_of_not_passed h]
  exact Nat.lt_succ_self _

end Direction

namespace Run

/-- The rounds of a `for` loop with a counter of 64 bits. It is compared with the last value after each
round, so that it need not go on from there. -/
def countTo (d : Direction) (setCounter : Int → Run Unit) (check : Run Unit) (body : Run Flow)
    (last current : Int64) : Run Flow :=
  if d.passed last current then return .normal
  else do
    check
    setCounter current.toInt
    match ← body with
    | .breakLoop => return .normal
    | .exitRoutine => return .exitRoutine
    | .normal | .continueLoop =>
      if current = last then return .normal
      else countTo d setCounter check body last (d.next current)
termination_by d.rounds current.toInt last.toInt
decreasing_by exact Direction.rounds_next_lt ‹_› ‹_›

/-- The rounds of a loop are those of its counter: there are as many, and the counter takes the same
values. -/
theorem countTo_eq (d : Direction) (setCounter : Int → Run Unit) (check : Run Unit) (body : Run Flow)
    (last current : Int64) : countTo d setCounter check body last current =
      forRounds d.step setCounter check body (d.rounds current.toInt last.toInt) current.toInt := by
  induction hn : d.rounds current.toInt last.toInt generalizing current with
  | zero =>
    have hpassed : d.passed last current := by
      by_contra h
      rw [Direction.rounds_of_not_passed h] at hn
      cases hn
    rw [countTo, if_pos hpassed, forRounds]
  | succ n ih =>
    have hpassed : ¬ d.passed last current := fun h => by
      rw [Direction.rounds_of_passed h] at hn
      cases hn
    have hrest : (if current = last then return .normal
        else countTo d setCounter check body last (d.next current)) =
        forRounds d.step setCounter check body n (current.toInt + d.step) := by
      rw [Direction.rounds_of_not_passed hpassed] at hn
      split
      · next hlast =>
        subst hlast
        obtain rfl : n = 0 := by
          cases d <;> simp only [Direction.rounds, Direction.step] at hn <;> omega
        rfl
      · next hlast =>
        have hnext := Direction.toInt_next hpassed hlast
        rw [ih _ (by rw [hnext]; omega), hnext]
    rw [countTo, if_neg hpassed, forRounds]
    refine bind_congr fun _ => bind_congr fun _ => bind_congr fun flow => ?_
    cases flow with
    | breakLoop | exitRoutine => rfl
    | normal | continueLoop => exact hrest

theorem liftFault_bind_congr {α β : Type} {x : Except Fault α} {f g : α → Run β}
    (h : ∀ a, x = .ok a → f a = g a) : liftFault x >>= f = liftFault x >>= g := by
  cases x with
  | error e => rfl
  | ok a => exact h a rfl

end Run

/-- The loops of a program count with 64 bits. -/
theorem Stmt.exec_forDo {env : Env} {caller : Caller} {chain : Chain} {counter : Place}
    {first last : Expr} {d : Direction} {body : Stmt} {pos : Position} :
    (Stmt.forDo counter first d last body pos).exec env caller chain =
      Run.statement env chain (.forDo counter first d last body pos) (do
        let start ← first.eval env caller chain
        let stop ← Run.liftFault (← last.eval env caller chain).asOrdinal
        let r ← counter.resolve env caller chain
        Run.set r start
        let begins ← Run.liftFault start.asOrdinal
        Run.countTo d (fun current => do Run.set r (← Run.liftFault (start.withOrdinal current)))
          Run.checkCancelled (body.exec env caller chain) (.ofInt stop) (.ofInt begins)) := by
  rw [Stmt.exec]
  refine congrArg (Run.statement env chain _) ?_
  refine bind_congr fun start => bind_congr fun v => Run.liftFault_bind_congr fun stop hstop => ?_
  refine bind_congr fun r => bind_congr fun _ => Run.liftFault_bind_congr fun begins hbegins => ?_
  rw [Run.countTo_eq, Value.toInt_ofInt_of_asOrdinal hstop, Value.toInt_ofInt_of_asOrdinal hbegins]

/-- Where a path leads to a part of a type, only its last step is to a character, which then is the part. -/
theorem Ty.charLast_of_at? {t u : Ty} {path : List Step} (h : t.at? path = some u) :
    Step.CharLast path ∧ ∀ index, path.getLast? = some (.charAt index) → u = .char := by
  induction path generalizing t with
  | nil => exact ⟨fun index => List.not_mem_nil, fun index hlast => by cases hlast⟩
  | cons step path ih =>
    cases step with
    | element index =>
      cases t with
      | array element r =>
        obtain ⟨hpath, hchar⟩ := ih h
        refine ⟨hpath.element, fun i hlast => hchar i ?_⟩
        cases path with
        | nil => cases hlast
        | cons next path => rwa [List.getLast?_cons_cons] at hlast
      | _ => cases h
    | charAt index =>
      simp only [Ty.at?] at h
      split at h
      · next hs =>
        obtain ⟨-, rfl⟩ := hs
        cases h
        exact ⟨fun index => List.not_mem_nil, fun index _ => rfl⟩
      · cases h

namespace Value

variable {v w : Value} {b : Basic} {n k lo hi : Int}

theorem fitsLong_between (hlo : v.asOrdinal = .ok lo) (hhi : w.asOrdinal = .ok hi)
    (hk : lo ≤ k ∧ k ≤ hi ∨ hi ≤ k ∧ k ≤ lo) : fitsLong k := by
  have hlo := fitsLong_of_asOrdinal hlo
  have hhi := fitsLong_of_asOrdinal hhi
  simp only [fitsLong, Bool.and_eq_true, decide_eq_true_eq] at hlo hhi ⊢
  omega

/-- The numbers between two ordinals of a kind are ordinals of this kind, but for the codes that no
character has. -/
theorem withOrdinal_between (hv : v.basic? = some b) (hw : w.basic? = some b)
    (hlo : v.asOrdinal = .ok lo) (hhi : w.asOrdinal = .ok hi) (hk : lo ≤ k ∧ k ≤ hi ∨ hi ≤ k ∧ k ≤ lo) :
    (∃ x, v.withOrdinal k = .ok x ∧ x.basic? = some b ∧ x.asOrdinal = .ok k) ∨
      b = .char ∧ 0xD800 ≤ k ∧ k ≤ 0xDFFF ∧ v.withOrdinal k = .error (.overflow "ordinal") := by
  cases v <;> cases hv <;> cases w <;> cases hw <;> cases hlo <;> cases hhi
  case boolean x y =>
    have hbit : k = 0 ∨ k = 1 := by cases x <;> cases y <;> simp at hk <;> omega
    rcases hbit with rfl | rfl
    · exact .inl ⟨boolean false, rfl, rfl, rfl⟩
    · exact .inl ⟨boolean true, rfl, rfl, rfl⟩
  case integer x y =>
    have := x.le_toInt
    have := x.toInt_lt
    have := y.le_toInt
    have := y.toInt_lt
    refine .inl ⟨integer (Int32.ofInt k), ?_, rfl, ?_⟩
    · rw [withOrdinal, integer?, if_pos (by omega)]
      rfl
    · rw [asOrdinal, Int32.toInt_ofInt_of_le (by omega) (by omega)]
  case long x y =>
    have := x.le_toInt
    have := x.toInt_lt
    have := y.le_toInt
    have := y.toInt_lt
    refine .inl ⟨long (Int64.ofInt k), ?_, rfl, ?_⟩
    · rw [withOrdinal, long?, if_pos (by omega)]
      rfl
    · rw [asOrdinal, Int64.toInt_ofInt_of_le (by omega) (by omega)]
  case char x y =>
    have hx : x.toNat < 0xD800 ∨ 0xDFFF < x.toNat ∧ x.toNat < 0x110000 := x.valid
    have hy : y.toNat < 0xD800 ∨ 0xDFFF < y.toNat ∧ y.toNat < 0x110000 := y.valid
    by_cases hcode : (0 ≤ k ∧ k < 0xD800) ∨ (0xDFFF < k ∧ k < 0x110000)
    · refine .inl ⟨char (Char.ofNat k.toNat), ?_, rfl, ?_⟩
      · rw [withOrdinal, char?, if_pos hcode]
        rfl
      · have hvalid : k.toNat.isValidChar := by
          unfold Nat.isValidChar
          omega
        have hcode : (Char.ofNat k.toNat).toNat = k.toNat := by
          rw [Char.ofNat, dif_pos hvalid]
          rfl
        rw [asOrdinal, hcode, Int.toNat_of_nonneg (by omega)]
    · refine .inr ⟨rfl, by omega, by omega, ?_⟩
      rw [withOrdinal, char?, if_neg hcode]
      rfl

/-- A part of a value either can be replaced, and is found in the new value then, or it is not there. -/
theorem revise_cases {cells : List Ty} {t u : Ty} {path : List Step} {x : Value}
    (hp : t.at? path = some u) (hx : x.HasType cells u) (v : Value) :
    (∃ w, v.revise (fun _ => .ok x) path = .ok w ∧ w.follow path = .ok x) ∨
      ∃ f, path ≠ [] ∧ v.revise (fun _ => .ok x) path = .error f ∧ v.follow path = .error f := by
  obtain ⟨hlast, hchar⟩ := Ty.charLast_of_at? hp
  cases hfollow : v.follow path with
  | error f =>
    have hne : path ≠ [] := by
      rintro rfl
      cases hfollow
    exact .inr ⟨f, hne, revise_eq_error hlast hfollow, rfl⟩
  | ok old =>
    have hstands : x.StandsAt path := by
      intro index hindex
      obtain rfl := hchar index hindex
      exact eq_char hx
    obtain ⟨w, hw⟩ := (DiffersAt.of_follow hfollow hlast).replace hstands
    exact .inl ⟨w, revise_eq_ok.mpr ⟨old, x, hw, rfl⟩, hw.symm.follow⟩

end Value

namespace Run

/-- A round begins: the loop is not cancelled, and its counter is set to an ordinal and holds it then. -/
structure Turns (counter : Ref) (b : Basic) (k : Int) (m m' : Machine) : Prop where
  live : m.world.cancelled = false
  holds : ∃ v, v.basic? = some b ∧ v.asOrdinal = .ok k ∧ Run.set counter v m = .ok () m' ∧
    Run.get counter m' = .ok v m'

/-- What a `for` loop does when its counter still has some ordinals to take. In each round the counter is
set to the next one of them, and the body runs. The loop ends before its last round only where the body
leaves it or fails, where it is cancelled, where a character has no code, and where the storage of the
counter is part of a cell and gone. -/
inductive Counts (counter : Ref) (b : Basic) (body : Run Flow) :
    List Int → Machine → EStateM.Result Stop Machine Flow → Prop where
  | done {m : Machine} : Counts counter b body [] m (.ok .normal m)
  | cancelled {k : Int} {ks : List Int} {m : Machine} (h : m.world.cancelled) :
      Counts counter b body (k :: ks) m (.error (.fault .cancelled none) m)
  | missing {k : Int} {ks : List Int} {m : Machine} (h : m.world.cancelled = false) (hb : b = .char)
      (hk : 0xD800 ≤ k ∧ k ≤ 0xDFFF) :
      Counts counter b body (k :: ks) m (.error (.fault (.overflow "ordinal") none) m)
  | lost {k : Int} {ks : List Int} {m : Machine} {f : Fault} (h : m.world.cancelled = false)
      (hpart : counter.path ≠ []) (hgone : Run.get counter m = .error (.fault f none) m) :
      Counts counter b body (k :: ks) m (.error (.fault f none) m)
  | fails {k : Int} {ks : List Int} {m m' m'' : Machine} {e : Stop} (h : Turns counter b k m m')
      (hbody : body m' = .error e m'') : Counts counter b body (k :: ks) m (.error e m'')
  | breaks {k : Int} {ks : List Int} {m m' m'' : Machine} (h : Turns counter b k m m')
      (hbody : body m' = .ok .breakLoop m'') : Counts counter b body (k :: ks) m (.ok .normal m'')
  | exits {k : Int} {ks : List Int} {m m' m'' : Machine} (h : Turns counter b k m m')
      (hbody : body m' = .ok .exitRoutine m'') :
      Counts counter b body (k :: ks) m (.ok .exitRoutine m'')
  | next {k : Int} {ks : List Int} {m m' m'' : Machine} {flow : Flow}
      {result : EStateM.Result Stop Machine Flow} (h : Turns counter b k m m')
      (hbody : body m' = .ok flow m'') (hflow : flow = .normal ∨ flow = .continueLoop)
      (hrest : Counts counter b body ks m'' result) : Counts counter b body (k :: ks) m result

/-- What a `for` loop does once its bounds are known. The counter is set to the first one, also where no
round follows, and then it counts. -/
inductive Loops (counter : Ref) (b : Basic) (body : Run Flow) (start : Value) (ks : List Int) (m : Machine) :
    EStateM.Result Stop Machine Flow → Prop where
  | lost {f : Fault} (hpart : counter.path ≠ []) (hgone : Run.get counter m = .error (.fault f none) m) :
      Loops counter b body start ks m (.error (.fault f none) m)
  | begins {m' : Machine} {result : EStateM.Result Stop Machine Flow}
      (hset : Run.set counter start m = .ok () m') (hget : Run.get counter m' = .ok start m')
      (hcounts : Counts counter b body ks m' result) : Loops counter b body start ks m result

end Run

section

variable {S : Setting} {cells : List Ty} {m : Machine}

/-- Storage either can be written, and holds what was written then, or it is part of a cell and gone. -/
theorem Machine.Typed.set_cases (hm : m.Typed S cells) {r : Ref} {t : Ty} {v : Value}
    (hr : r.HasType cells t) (hv : v.HasType cells t) :
    (∃ m', Run.set r v m = .ok () m' ∧ Run.get r m' = .ok v m' ∧ m'.active = m.active ∧
      ∃ cells', cells <+: cells' ∧ m'.Typed S cells') ∨
    ∃ f, r.path ≠ [] ∧ Run.set r v m = .error (.fault f none) m ∧
      Run.get r m = .error (.fault f none) m := by
  have hsound : Run.Sound S m.active cells (fun _ _ => True) (Run.set r v m) :=
    Plan.Sound.set hr hv m rfl hm
  obtain ⟨root, hroot, hpath⟩ := hr
  obtain ⟨w, hw, -⟩ := hm.store.cell r.cell root hroot
  have hlt : r.cell < m.world.store.cells.size := (Array.getElem?_eq_some_iff.mp hw).1
  simp only [Run.set, Run.get, Store.revised, Store.get, hw] at hsound ⊢
  rcases Value.revise_cases hpath hv w with ⟨w', hrevise, hfollow⟩ | ⟨f, hpart, hrevise, hfollow⟩
  · simp only [hrevise] at hsound ⊢
    obtain ⟨hactive, cells', hcells, hm', -⟩ := hsound
    refine .inl ⟨_, rfl, ?_, hactive, cells', hcells, hm'⟩
    simp [Store.put, hlt, hfollow]
  · simp only [hrevise, hfollow]
    exact .inr ⟨f, hpart, rfl, rfl⟩

variable {chain : Chain} {depth : Nat} {body : Stmt} {b : Basic} {start stop : Value} {lo hi : Int}
  {d : Direction} {counter : Ref}

/-- The rounds of a loop on a typed machine. The induction is on the rounds that are left; the body keeps
the machine typed, so that the counter can be set again. -/
theorem Setting.Sound.forRounds_counts (hS : S.Sound) (hstart : start.basic? = some b)
    (hstop : stop.basic? = some b) (hlo : start.asOrdinal = .ok lo) (hhi : stop.asOrdinal = .ok hi)
    (hbody : body.Typed S.discipline S.arena) {n : Nat} {current : Int}
    (hn : d.rounds current hi = n) (hks : d.ordinals current hi ⊆ d.ordinals lo hi)
    (hm : m.Typed S cells) (hchain : ∀ f ∈ chain, f ∈ m.active)
    (hcounter : counter.HasType cells (.basic b)) :
    Run.Counts counter b (body.exec S.env (S.env.callWithin depth) chain) (d.ordinals current hi) m
      (Run.forRounds d.step (fun k => do Run.set counter (← Run.liftFault (start.withOrdinal k)))
        Run.checkCancelled (body.exec S.env (S.env.callWithin depth) chain) n current m) := by
  induction n generalizing current m cells with
  | zero =>
    rw [Direction.ordinals_of_rounds_zero hn]
    exact .done
  | succ n ih =>
    obtain ⟨hcons, hn⟩ := Direction.ordinals_of_rounds_succ hn
    rw [hcons] at hks ⊢
    obtain ⟨hk, hks⟩ := List.cons_subset.mp hks
    simp only [Run.forRounds, Bind.bind, EStateM.bind, Run.checkCancelled]
    cases hlive : m.world.cancelled with
    | true =>
      simp only [if_true]
      exact .cancelled hlive
    | false =>
      simp only [Bool.false_eq_true, if_false]
      rcases Value.withOrdinal_between hstart hstop hlo hhi (Direction.between_of_mem_ordinals hk) with
        ⟨v, hv, hbasic, hordinal⟩ | ⟨hchar, hfirst, hlast, hv⟩
      · simp only [hv, Run.liftFault]
        rcases hm.set_cases hcounter (v := v) hbasic with
          ⟨m', hset, hget, hactive, cells', hcells, hm'⟩ | ⟨f, hpart, hset, hget⟩
        · simp only [pure, EStateM.pure, hset]
          have hturns : Run.Turns counter b current m m' := ⟨hlive, v, hbasic, hordinal, hset, hget⟩
          have hkept : Run.Sound S m'.active cells' (fun _ _ => True)
              (body.exec S.env (S.env.callWithin depth) chain m') :=
            Contract.Kept.perform hS.kept ⟨.stmt body, chain, depth⟩ cells' m'
              ⟨hactive ▸ hchain, hm', hbody⟩
          cases hresult : body.exec S.env (S.env.callWithin depth) chain m' with
          | error e m'' => exact .fails hturns hresult
          | ok flow m'' =>
            rw [hresult] at hkept
            obtain ⟨hactive', cells'', hcells', hm'', -⟩ := hkept
            have hrest := ih hn hks hm'' (by rw [hactive', hactive]; exact hchain)
              (hcounter.mono (hcells.trans hcells'))
            cases flow with
            | normal => exact .next hturns hresult (.inl rfl) hrest
            | continueLoop => exact .next hturns hresult (.inr rfl) hrest
            | breakLoop => exact .breaks hturns hresult
            | exitRoutine => exact .exits hturns hresult
        · simp only [pure, EStateM.pure, hset]
          exact .lost hlive hpart hget
      · simp only [hv, Run.liftFault]
        exact .missing hlive hchar ⟨hfirst, hlast⟩

end

namespace Run

variable {env : Env} {chain : Chain} {s : Stmt} {m m₀ : Machine} {x y : Run Flow}

theorem opening_eq_ok (h : opening env chain s m = .ok () m₀) :
    m₀ = if s.isBlock then m else m.announce env chain s.pos := by
  cases hcancelled : m.world.cancelled with
  | true =>
    rw [opening_of_cancelled env chain s hcancelled] at h
    cases h
  | false =>
    rw [opening_of_live env chain s hcancelled] at h
    cases h
    rfl

/-- What a statement does is decided on the machine that it leaves its opening with. -/
theorem statement_congr (h : opening env chain s m = .ok () m₀) (hxy : x m₀ = y m₀) :
    statement env chain s x m = statement env chain s y m := by
  simp only [statement_eq_opening, Bind.bind, EStateM.bind, h, located, hxy]

end Run

/-- The opening of a statement leaves storage and the active frames as they are. -/
theorem Machine.Typed.opening {S : Setting} {cells : List Ty} {m m₀ : Machine} (hm : m.Typed S cells)
    {env : Env} {chain : Chain} {s : Stmt} (h : Run.opening env chain s m = .ok () m₀) :
    m₀.active = m.active ∧ m₀.Typed S cells := by
  have hsame : m₀.world.store = m.world.store ∧ m₀.active = m.active := by
    rw [Run.opening_eq_ok h]
    split
    · exact ⟨rfl, rfl⟩
    · rw [m.announce_same]
      exact ⟨rfl, rfl⟩
  exact ⟨hsame.2, hm.of_same hsame.1 hsame.2⟩

/-- The rounds of a typed loop whose bounds have been evaluated. -/
theorem Setting.Sound.forDo_loops {S : Setting} (hS : S.Sound) {cells : List Ty} {m m₁ m₂ : Machine}
    (hm : m.Typed S cells) {chain : Chain} (hchain : ∀ f ∈ chain, f ∈ m.active) {depth : Nat}
    {v : VarRef} {first last : Expr} {d : Direction} {body : Stmt} {pos : Position}
    (hs : (Stmt.forDo (.var v) first d last body pos).Typed S.discipline S.arena)
    {r : Ref} (hr : S.env.variableRef chain v = .ok r) {start stop : Value}
    (hfirst : first.eval S.env (S.env.callWithin depth) chain m = .ok start m₁)
    (hlast : last.eval S.env (S.env.callWithin depth) chain m₁ = .ok stop m₂) :
    ∃ b lo hi, S.arena.varTy? v = some (.basic b) ∧ (S.arena.isReference v = false → r.path = []) ∧
      start.basic? = some b ∧ start.asOrdinal = .ok lo ∧ stop.basic? = some b ∧ stop.asOrdinal = .ok hi ∧
      ∃ x, (Stmt.forDo (.var v) first d last body pos).exec S.env (S.env.callWithin depth) chain =
          Run.statement S.env chain (.forDo (.var v) first d last body pos) x ∧
        Run.Loops r b (body.exec S.env (S.env.callWithin depth) chain) start (d.ordinals lo hi) m₂
          (x m) := by
  obtain ⟨-, ho, hcount, hf, hl, hlty, hbody⟩ := hs
  obtain ⟨b, hb⟩ : ∃ b, first.ty = .basic b := by
    cases hty : first.ty with
    | basic b => exact ⟨b, rfl⟩
    | _ => rw [hty] at ho; cases ho
  rw [hb] at ho hcount hlty
  have hstart : Run.Sound S m.active cells (fun cells' => (Code.expr first).Results S cells')
      (first.eval S.env (S.env.callWithin depth) chain m) :=
    Contract.Kept.perform hS.kept ⟨.expr first, chain, depth⟩ cells m ⟨hchain, hm, hf⟩
  rw [hfirst] at hstart
  obtain ⟨hactive₁, cells₁, hcells₁, hm₁, hstart⟩ := hstart
  have hstop : Run.Sound S m₁.active cells₁ (fun cells' => (Code.expr last).Results S cells')
      (last.eval S.env (S.env.callWithin depth) chain m₁) :=
    Contract.Kept.perform hS.kept ⟨.expr last, chain, depth⟩ cells₁ m₁ ⟨hactive₁ ▸ hchain, hm₁, hl⟩
  rw [hlast] at hstop
  obtain ⟨hactive₂, cells₂, hcells₂, hm₂, hstop⟩ := hstop
  rw [Code.Results, hb] at hstart
  rw [Code.Results, hlty] at hstop
  obtain ⟨lo, hlo⟩ := Value.asOrdinal_of_basic hstart ho
  obtain ⟨hi, hhi⟩ := Value.asOrdinal_of_basic hstop ho
  have hchain₂ : ∀ f ∈ chain, f ∈ m₂.active := by rwa [hactive₂, hactive₁]
  obtain ⟨hshows, hwhole⟩ := (hm₂.variableRef hchain₂ v).1 r hr _ hcount.1
  refine ⟨b, lo, hi, hcount.1, hwhole, hstart, hlo, hstop, hhi, _, rfl, ?_⟩
  have hresolve : (Place.var v).resolve S.env (S.env.callWithin depth) chain = pure r := by
    rw [Place.resolve, hr]
    rfl
  simp only [hresolve, Bind.bind, EStateM.bind, hfirst, hlast, hlo, hhi, Run.liftFault, pure,
    EStateM.pure]
  rcases hm₂.set_cases hshows.basic (hstart.mono hcells₂) with
    ⟨m₃, hset, hget, hactive₃, cells₃, hcells₃, hm₃⟩ | ⟨f, hpart, hset, hget⟩
  · simp only [hset]
    refine .begins hset hget ?_
    exact hS.forRounds_counts hstart hstop hlo hhi hbody rfl (List.Subset.refl _) hm₃
      (by rwa [hactive₃]) (hshows.basic.mono hcells₃)
  · simp only [hset]
    exact .lost hpart hget

/-- Loops count. The bounds of a `for` loop are evaluated once, the first one before the last one. Its
counter is a variable of their type. It is set to the first bound and then takes all ordinals from the first
to the last one, in order and once each, whatever the body does. All of them are numbers of 64 bits, and none
is counted on from but those before the last. Storage of the counter that is part of a cell, and may
therefore be gone, is that of a parameter that is passed by reference. -/
theorem Toolchain.compile_counts {t : Toolchain} {unit source : String} {p : Program}
    (h : t.compile unit source = .ok p)
    (hl : ∀ l ∈ t.libraries, l.Fits {} ∧ ∀ r ∈ l.routines, r.Sound {} ∧ r.Heeds) {l : Launch}
    (hw : l.world.store = {}) {counter : Place} {first last : Expr} {d : Direction} {body : Stmt}
    {pos : Position} {chain : Chain} {depth : Nat} {m m₀ m₁ m₂ : Machine} {start stop : Value}
    (hreach : p.Reaches l ⟨.stmt (.forDo counter first d last body pos), chain, depth⟩ m)
    (hopening : Run.opening (p.env l) chain (.forDo counter first d last body pos) m = .ok () m₀)
    (hfirst : first.eval (p.env l) ((p.env l).callWithin depth) chain m₀ = .ok start m₁)
    (hlast : last.eval (p.env l) ((p.env l).callWithin depth) chain m₁ = .ok stop m₂) :
    ∃ v r b lo hi, counter = .var v ∧ p.arena.varTy? v = some (.basic b) ∧
      (p.env l).variableRef chain v = .ok r ∧ (r.path ≠ [] → p.arena.isReference v) ∧
      start.basic? = some b ∧ start.asOrdinal = .ok lo ∧ stop.basic? = some b ∧ stop.asOrdinal = .ok hi ∧
      (∀ k ∈ d.ordinals lo hi, Value.fitsLong k ∧ (k ≠ hi → k + d.step ∈ d.ordinals lo hi)) ∧
      ∃ result, (Stmt.forDo counter first d last body pos).exec (p.env l) ((p.env l).callWithin depth)
          chain m =
            Run.statement (p.env l) chain (.forDo counter first d last body pos) (fun _ => result) m ∧
        Run.Loops r b (body.exec (p.env l) ((p.env l).callWithin depth) chain) start (d.ordinals lo hi) m₂
          result := by
  obtain ⟨a, ha, hstarts⟩ := compile_starts (d := {}) h true nofun nofun
    (fun q _ => Program.closes_of_kinds rfl q)
    (fun l hmem => ⟨(hl l hmem).1, fun r hr => ((hl l hmem).2 r hr).1⟩) hw
  obtain ⟨cells, hchain, hm, htyped⟩ := hstarts.before hreach
  obtain ⟨v, rfl⟩ := htyped.1
  obtain ⟨hactive, hm₀⟩ := hm.opening hopening
  have hscoped := compile_scoped h
  have hheeds := compile_heeds h fun l hmem r hr => ((hl l hmem).2 r hr).2
  obtain ⟨scope, hcode, hfollows, -⟩ :=
    hreach.before (Env.lexical_kept (hscoped.launch l) hheeds) (hscoped.plan_meets l)
  have hsees : p.arena.sees scope v := by
    simp only [Code.Scoped, Stmt.Scoped, Stmt.all, Place.all, Bool.and_eq_true] at hcode
    exact hcode.1.1.1.2
  obtain ⟨-, r, -, -, hr⟩ := (hscoped.launch l).variableRef hfollows hsees
  obtain ⟨b, lo, hi, hty, hwhole, hstart, hlo, hstop, hhi, x, hexec, hloops⟩ :=
    hstarts.sound.forDo_loops hm₀ (hactive ▸ hchain) htyped hr hfirst hlast
  refine ⟨v, r, b, lo, hi, rfl, ha.varTy? v ▸ hty, hr, ?_, hstart, hlo, hstop, hhi, fun k hk => ?_, x m₀,
    ?_, hloops⟩
  · rw [ha.isReference]
    exact fun hpart => by simpa using mt hwhole hpart
  · exact ⟨Value.fitsLong_between hlo hhi (Direction.between_of_mem_ordinals hk),
      Direction.add_step_mem_ordinals hk⟩
  · exact (congrFun hexec m).trans (Run.statement_congr hopening rfl)

/-- Whether a call is one of a loop, outside of all routines, from one ordinal up to another one. -/
def Task.countsUp (env : Env) (lo hi : Int) {α : Type} (t : Task α) (m : Machine) : Bool :=
  match t.code with
  | .stmt (.forDo counter first .up last body pos) =>
    let caller := env.callWithin env.settings.maxCallDepth
    let bounds : Run (Value × Value) := do
      Run.opening env [] (.forDo counter first .up last body pos)
      return (← first.eval env caller [], ← last.eval env caller [])
    t.chain.isEmpty && t.depth == env.settings.maxCallDepth &&
    match bounds m with
    | .ok (start, stop) _ => start.asOrdinal.toOption == some lo && stop.asOrdinal.toOption == some hi
    | .error _ _ => false
  | _ => false

theorem Program.reaches_of_countsUp {p : Program} {l : Launch} {lo hi : Int} {steps : Nat}
    (h : p.finds l (fun t m => t.countsUp (p.env l) lo hi m) steps) :
    ∃ counter first last body pos m m₀ m₁ m₂ start stop,
      p.Reaches l ⟨.stmt (.forDo counter first .up last body pos), [], l.settings.maxCallDepth⟩ m ∧
      Run.opening (p.env l) [] (.forDo counter first .up last body pos) m = .ok () m₀ ∧
      first.eval (p.env l) ((p.env l).callWithin l.settings.maxCallDepth) [] m₀ = .ok start m₁ ∧
      last.eval (p.env l) ((p.env l).callWithin l.settings.maxCallDepth) [] m₁ = .ok stop m₂ ∧
      start.asOrdinal = .ok lo ∧ stop.asOrdinal = .ok hi := by
  obtain ⟨α, ⟨code, chain, depth⟩, m, hreach, h⟩ := Program.exists_reaches h
  cases code with
  | stmt s =>
    cases s with
    | forDo counter first d last body pos =>
      cases d with
      | up =>
        simp only [Task.countsUp, Bool.and_eq_true, List.isEmpty_iff, beq_iff_eq] at h
        obtain ⟨⟨rfl, rfl⟩, h⟩ := h
        split at h
        next start stop m₂ hbounds =>
          obtain ⟨_, m₀, hopening, hbounds⟩ := EStateM.bind_eq_ok_iff.mp hbounds
          obtain ⟨start', m₁, hfirst, hbounds⟩ := EStateM.bind_eq_ok_iff.mp hbounds
          obtain ⟨stop', m₂', hlast, hbounds⟩ := EStateM.bind_eq_ok_iff.mp hbounds
          cases hbounds
          simp only [Bool.and_eq_true, beq_iff_eq] at h
          exact ⟨counter, first, last, body, pos, m, m₀, m₁, m₂, start, stop, hreach, hopening, hfirst,
            hlast, eq_ok_of_toOption h.1, eq_ok_of_toOption h.2⟩
        next => cases h
      | down => cases h
    | _ => cases h
  | _ => cases h

/-- The hypotheses hold of a loop whose body changes the counter and what the last bound was read from. -/
theorem Toolchain.compile_counts_changed : ∃ (p : Program) (l : Launch) (s body : Stmt) (m m₂ : Machine)
    (r : Ref) (start : Value) (result : EStateM.Result Stop Machine Flow),
    standard.compile "test" "var i: integer; n: integer = 3;
      begin for i := 1 to n do begin n := 0; i := i * 10 end end." = .ok p ∧
    p.Reaches l ⟨.stmt s, [], l.settings.maxCallDepth⟩ m ∧
    s.exec (p.env l) ((p.env l).callWithin l.settings.maxCallDepth) [] m =
      Run.statement (p.env l) [] s (fun _ => result) m ∧
    ∃ b, Run.Loops r b (body.exec (p.env l) ((p.env l).callWithin l.settings.maxCallDepth) []) start
      [1, 2, 3] m₂ result := by
  let text := "var i: integer; n: integer = 3;
      begin for i := 1 to n do begin n := 0; i := i * 10 end end."
  let l : Launch := ⟨{}, none, 100, { console := .ofInput "" }⟩
  have hcounts : (standard.compile "test" text).toOption.any fun p =>
      p.finds l (fun t m => t.countsUp (p.env l) 1 3 m) 4 := by decide +kernel
  obtain ⟨p, hp, hcounts⟩ := exists_ok_of_any hcounts
  obtain ⟨counter, first, last, body, pos, m, m₀, m₁, m₂, start, stop, hreach, hopening, hfirst, hlast,
    hlo, hhi⟩ := Program.reaches_of_countsUp hcounts
  have hl : ∀ l ∈ standard.libraries, l.Fits {} ∧ ∀ r ∈ l.routines, r.Sound {} ∧ r.Heeds :=
    fun l hmem => ⟨Library.standard_fits l hmem, fun r hr =>
      ⟨Library.standard_sound l hmem r hr, Library.standard_heeds l hmem r hr⟩⟩
  obtain ⟨v, r, b, lo, hi, rfl, -, -, -, -, hlo', -, hhi', -, result, hexec, hloops⟩ :=
    Toolchain.compile_counts hp hl rfl hreach hopening hfirst hlast
  cases hlo.symm.trans hlo'
  cases hhi.symm.trans hhi'
  exact ⟨p, l, _, body, m, m₂, r, start, result, hp, hreach, hexec, b, hloops⟩

end Pascal
