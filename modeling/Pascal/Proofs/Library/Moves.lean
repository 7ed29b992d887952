import Pascal.Library.Standard
import Pascal.Machine.Exec
import Pascal.Proofs.Machine.References
import Pascal.Proofs.Value.Ordinal

/-!
# Variables moved on by an amount

`inc` adds an amount to the number of a variable and `dec` takes it away. Both change the variable in
place: it is read and written in one go, and where no value of its type has the new number, nothing is
written. The distance is computed before, in 64 bits, so that `dec` overflows for the least amount,
wherever the variable stands.
-/

namespace Pascal

open Step

namespace Value

variable {path : List Step} {v x : Value}

/-- A part that can be read is revised by writing what is made of it. -/
theorem revise_eq_bind (hpath : CharLast path) (h : v.follow path = .ok x)
    (f : Value → Except Fault Value) :
    v.revise f path = f x >>= fun y => v.revise (fun _ => .ok y) path := by
  induction path generalizing v with
  | nil =>
    cases h
    simp only [revise]
    cases f x <;> rfl
  | cons step path ih =>
    cases step with
    | element index =>
      obtain ⟨item, hat, hrest⟩ := bind_eq_ok.mp h
      obtain ⟨lower, items, k, rfl, hindex, hitem⟩ := elementAt_eq_ok.mp hat
      simp only [revise, hindex, itemAt_eq_ok.mpr hitem, Bind.bind, Except.bind]
      rw [ih hpath.tail hrest]
      cases f x <;> rfl
    | charAt index =>
      obtain rfl := hpath.eq_nil
      obtain ⟨c, hat, hx⟩ := bind_eq_ok.mp h
      cases hx
      simp only [revise, hat, Bind.bind, Except.bind]

/-- A value of the type of another one can stand wherever that one stands. -/
theorem StandsAt.of_basic {y : Value} {b : Basic} (h : x.StandsAt path) (hx : x.basic? = some b)
    (hy : y.basic? = some b) : y.StandsAt path := by
  intro index hlast
  obtain ⟨c, rfl⟩ := h index hlast
  cases hx
  exact eq_char hy

end Value

namespace Store

variable {s s' : Store} {r : Ref} {x y : Value}

theorem revised_eq_bind (hpath : CharLast r.path) (h : s.get r = .ok x)
    (f : Value → Except Fault Value) :
    s.revised r f = f x >>= fun y => s.revised r fun _ => .ok y := by
  obtain ⟨root, hroot, hfollow⟩ := get_eq_ok.mp h
  simp only [revised, hroot]
  exact Value.revise_eq_bind hpath hfollow f

/-- What has been written is read. -/
theorem get_of_set (h : s.set r y = .ok s') : s'.get r = .ok y := by
  obtain ⟨root, old, new, hroot, hdiffers, rfl⟩ := set_eq_ok.mp h
  exact get_eq_ok.mpr ⟨new, cell_put hroot new, hdiffers.symm.follow⟩

/-- Writing back what stood there before gives the store as it was. -/
theorem set_back (h : s.set r y = .ok s') (hx : s.get r = .ok x) : s'.set r x = .ok s := by
  obtain ⟨root, old, new, hroot, hdiffers, rfl⟩ := set_eq_ok.mp h
  obtain ⟨root', hroot', hfollow⟩ := get_eq_ok.mp hx
  obtain rfl : root = root' := by
    rw [hroot] at hroot'
    exact Option.some.inj (Option.some.inj hroot')
  obtain rfl : old = x := Except.ok.inj (hdiffers.follow.symm.trans hfollow)
  refine set_eq_ok.mpr ⟨new, y, root, cell_put hroot new, hdiffers.symm, ?_⟩
  rw [← put_self hroot]
  simp [put]

end Store

/-- A variable takes any other value of its type. -/
theorem Store.exists_set {s : Store} {r : Ref} {x y : Value} {b : Basic} (hpath : CharLast r.path)
    (h : s.get r = .ok x) (hx : x.basic? = some b) (hy : y.basic? = some b) :
    ∃ s', s.set r y = .ok s' := by
  obtain ⟨root, hroot, hfollow⟩ := get_eq_ok.mp h
  have hdiffers := Value.DiffersAt.of_follow hfollow hpath
  obtain ⟨new, hnew⟩ := hdiffers.replace (hdiffers.standsAt.of_basic hx hy)
  exact ⟨_, set_eq_ok.mpr ⟨root, x, new, hroot, hnew, rfl⟩⟩

/-- In place, a variable is set to what is made of its value. -/
theorem Host.update_eq {r : Ref} {x : Value} {w : World} (hpath : CharLast r.path)
    (h : w.store.get r = .ok x) (f : Value → Except Fault Value) :
    Host.update r f w =
      match f x >>= w.store.set r with
      | .ok store => .ok () { w with store }
      | .error e => .error (.fault e) w := by
  unfold Host.update
  rw [Store.revised_eq_bind hpath h]
  cases f x with
  | error e => rfl
  | ok y =>
    simp only [Bind.bind, Except.bind, Store.set]
    cases w.store.revised r fun _ => .ok y <;> rfl

namespace Direction

/-- The name of the routine that moves a variable. -/
def routine : Direction → String
  | up => "inc"
  | down => "dec"

def opposite : Direction → Direction
  | up => down
  | down => up

/-- The number that lies an amount further on. -/
def moved (d : Direction) (n amount : Int) : Int :=
  match d with
  | up => n + amount
  | down => n - amount

theorem add_mul_step (d : Direction) (n amount : Int) : n + amount * d.step = d.moved n amount := by
  cases d with
  | up => simp only [step, moved, Int.mul_one]
  | down => simp only [step, moved, Int.mul_neg_one, Int.sub_eq_add_neg]

theorem moved_back (d : Direction) (n amount : Int) :
    d.opposite.moved (d.moved n amount) amount = n := by
  cases d <;> simp only [opposite, moved] <;> omega

end Direction

namespace Library

variable {d : Direction} {r : Routine} {b : Basic} {amount n : Int} {rest : List Value}

/-- The routine `r` moves variables of type `b`, and takes the arguments `rest` behind the variable,
which tell the amount. Where there are none, the amount is one. -/
structure Moves (d : Direction) (r : Routine) (b : Basic) (amount : Int) (rest : List Value) : Prop where
  routine : r ∈ system.routines
  name : r.name = d.routine
  params : ∃ x ps, r.signature.params = x :: ps ∧ x.ty = .basic b ∧
    List.Forall₂ (fun p v => p.ty.basic? = v.basic?) ps rest
  amount : rest = [] ∧ amount = 1 ∨ ∃ v, rest = [v] ∧ v.asOrdinal = .ok amount

theorem mem_stepRoutines :
    r ∈ stepRoutines d.routine d.step ↔ r ∈ system.routines ∧ r.name = d.routine := by
  have hfilter : system.routines.filter (·.name == d.routine) = stepRoutines d.routine d.step := by
    cases d <;> rfl
  rw [← hfilter, List.mem_filter, beq_iff_eq]

/-- A call with an amount of the type that the routine takes. -/
theorem moves_of_mem {b' : Basic} {v : Value}
    (hr : procedure d.routine [varParam "x" (.basic b), param "n" (.basic b')] (stepInPlace d.step) ∈
      stepRoutines d.routine d.step) (hv : v.Numbered b' amount) :
    Moves d (procedure d.routine [varParam "x" (.basic b), param "n" (.basic b')] (stepInPlace d.step))
      b amount [v] where
  routine := (mem_stepRoutines.mp hr).1
  name := (mem_stepRoutines.mp hr).2
  params := ⟨_, _, rfl, rfl, .cons hv.kind.symm .nil⟩
  amount := .inr ⟨v, rfl, hv.number⟩

namespace Moves

/-- All these routines do the same, for variables of three types. -/
theorem run_eq (h : Moves d r b amount rest) :
    (b = .integer ∨ b = .long ∨ b = .char) ∧
      r.run = fun args => do stepInPlace d.step args; return none := by
  obtain ⟨x, ps, hparams, hx, -⟩ := h.params
  have hmem := mem_stepRoutines.mpr ⟨h.routine, h.name⟩
  simp only [stepRoutines, List.mem_cons, List.not_mem_nil, or_false] at hmem
  rcases hmem with rfl | rfl | rfl | rfl | rfl | rfl <;> cases hparams <;> cases hx <;> simp [procedure]

theorem fitsLong_amount (h : Moves d r b amount rest) : Value.fitsLong amount := by
  rcases h.amount with ⟨-, rfl⟩ | ⟨v, -, hv⟩
  · rfl
  · exact Value.fitsLong_of_asOrdinal hv

/-- The distance has 64 bits, but for the least amount downwards. -/
theorem fitsLong_distance (h : Moves d r b amount rest)
    (hleast : ¬ (d = .down ∧ amount = -0x8000000000000000)) : Value.fitsLong (amount * d.step) := by
  have hamount := h.fitsLong_amount
  simp only [Value.fitsLong, Bool.and_eq_true, decide_eq_true_eq] at hamount ⊢
  cases d with
  | up => simpa only [Direction.step, Int.mul_one] using hamount
  | down =>
    have hne : amount ≠ -0x8000000000000000 := fun he => hleast ⟨rfl, he⟩
    simp only [Direction.step, Int.mul_neg_one]
    omega

variable {w : World} {ref : Ref} {x : Value}

/-- A variable is set to the value with the new number, where there is one. -/
theorem run_eq_set (h : Moves d r b amount rest)
    (hleast : ¬ (d = .down ∧ amount = -0x8000000000000000)) (hpath : CharLast ref.path)
    (hget : w.store.get ref = .ok x) (hx : x.Numbered b n) :
    r.run (.pointer (some ref) :: rest) w =
      match x.withOrdinal (d.moved n amount) >>= w.store.set ref with
      | .ok store => .ok none { w with store }
      | .error e => .error (.fault e) w := by
  have hshifted : shifted x (amount * d.step) = x.withOrdinal (d.moved n amount) := by
    rw [← d.add_mul_step, shifted, hx.number]
    rfl
  have hupdate := Host.update_eq hpath hget fun v => shifted v (amount * d.step)
  rw [hshifted] at hupdate
  have hstep : stepInPlace d.step (.pointer (some ref) :: rest) w =
      Host.update ref (fun v => shifted v (amount * d.step)) w := by
    have hfits := h.fitsLong_distance hleast
    rcases h.amount with ⟨rfl, rfl⟩ | ⟨v, rfl, hv⟩
    · simp only [stepInPlace, List.getElem?_cons_succ, List.getElem?_nil, Bind.bind, EStateM.bind,
        pure, EStateM.pure, hfits, Bool.not_true, Bool.false_eq_true, if_false]
      rfl
    · simp only [stepInPlace, List.getElem?_cons_succ, List.getElem?_cons_zero, hv, Host.liftFault,
        Bind.bind, EStateM.bind, pure, EStateM.pure, hfits, Bool.not_true, Bool.false_eq_true, if_false]
      rfl
  rw [h.run_eq.2]
  simp only [Bind.bind, EStateM.bind, hstep, hupdate]
  cases (x.withOrdinal (d.moved n amount)).bind (w.store.set ref) <;> rfl

theorem isOrdinal (h : Moves d r b amount rest) : (Ty.basic b).isOrdinal := by
  rcases h.run_eq.1 with rfl | rfl | rfl <;> rfl

/-- Where a type has the new number, the variable is set to its value. -/
theorem run_of_holds (h : Moves d r b amount rest)
    (hleast : ¬ (d = .down ∧ amount = -0x8000000000000000)) (hpath : CharLast ref.path)
    (hget : w.store.get ref = .ok x) (hx : x.Numbered b n) (hn : b.Holds (d.moved n amount)) :
    ∃ y s, y.Numbered b (d.moved n amount) ∧ w.store.set ref y = .ok s ∧
      r.run (.pointer (some ref) :: rest) w = .ok none { w with store := s } := by
  obtain ⟨y, hy, hnum⟩ := Value.value?_of_holds hn
  obtain ⟨s, hs⟩ := Store.exists_set hpath hget hx.kind hnum.kind
  refine ⟨y, s, hnum, hs, ?_⟩
  rw [h.run_eq_set hleast hpath hget hx, Value.withOrdinal_eq hx.kind h.isOrdinal, hy]
  simp only [Value.orOverflow, Bind.bind, Except.bind, hs]

/-- Where it has not, the move overflows, and nothing has changed. -/
theorem run_of_not_holds (h : Moves d r b amount rest)
    (hleast : ¬ (d = .down ∧ amount = -0x8000000000000000)) (hpath : CharLast ref.path)
    (hget : w.store.get ref = .ok x) (hx : x.Numbered b n) (hn : ¬ b.Holds (d.moved n amount)) :
    r.run (.pointer (some ref) :: rest) w = .error (.fault (.overflow "ordinal")) w := by
  rw [h.run_eq_set hleast hpath hget hx, Value.withOrdinal_eq hx.kind h.isOrdinal,
    Value.value?_eq_none hn]
  rfl

/-- The least amount is not one that a variable can be moved down by: its negation is no number of 64
bits. -/
theorem run_of_least (h : Moves d r b amount rest)
    (hleast : d = .down ∧ amount = -0x8000000000000000) :
    r.run (.pointer (some ref) :: rest) w = .error (.fault (.overflow "ordinal")) w := by
  obtain ⟨rfl, rfl⟩ := hleast
  rcases h.amount with ⟨-, hone⟩ | ⟨v, rfl, hv⟩
  · cases hone
  · rw [h.run_eq.2]
    simp only [stepInPlace, List.getElem?_cons_succ, List.getElem?_cons_zero, hv, Host.liftFault,
      Bind.bind, EStateM.bind]
    rfl

/-- A move by the same amount in the other direction restores the world. -/
theorem run_back {r' : Routine} {w' : World} (h : Moves d r b amount rest)
    (h' : Moves d.opposite r' b amount rest) (hleast : amount ≠ -0x8000000000000000)
    (hpath : CharLast ref.path) (hget : w.store.get ref = .ok x) (hx : x.Numbered b n)
    (hrun : r.run (.pointer (some ref) :: rest) w = .ok none w') :
    r'.run (.pointer (some ref) :: rest) w' = .ok none w := by
  by_cases hn : b.Holds (d.moved n amount)
  · obtain ⟨y, s, hy, hs, hok⟩ := h.run_of_holds (fun hd => hleast hd.2) hpath hget hx hn
    cases hok.symm.trans hrun
    have hback := d.moved_back n amount
    obtain ⟨z, s', hz, hs', hok'⟩ := h'.run_of_holds (w := { w with store := s })
      (fun hd => hleast hd.2) hpath (Store.get_of_set hs) hy (by rw [hback]; exact hx.holds)
    rw [hback] at hz
    cases hz.unique hx
    cases (Store.set_back hs hget).symm.trans hs'
    exact hok'
  · cases (h.run_of_not_holds (fun hd => hleast hd.2) hpath hget hx hn).symm.trans hrun

end Moves

/-- **Variables are moved exactly or not at all.** `inc` sets a variable to the value that lies an amount
above its own, `dec` to the one that lies as much below, and nothing else changes. Where the type of the
variable has no such value, they overflow, and all is as it was. The move back by the same amount restores
the variable. Only the least amount of 64 bits is not one that `dec` can take: it overflows wherever the
variable stands. -/
theorem moves_exact {w : World} {ref : Ref} {x : Value} (h : Moves d r b amount rest)
    (hpath : CharLast ref.path) (hget : w.store.get ref = .ok x) (hx : x.Numbered b n) :
    (b.Holds (d.moved n amount) → ¬ (d = .down ∧ amount = -0x8000000000000000) →
      ∃ y s, y.Numbered b (d.moved n amount) ∧
        r.run (.pointer (some ref) :: rest) w = .ok none { w with store := s } ∧ s.get ref = .ok y ∧
        ∀ ref', ref.Apart ref' → s.get ref' = w.store.get ref') ∧
    (¬ b.Holds (d.moved n amount) ∨ d = .down ∧ amount = -0x8000000000000000 →
      r.run (.pointer (some ref) :: rest) w = .error (.fault (.overflow "ordinal")) w) ∧
    ∀ r' w', Moves d.opposite r' b amount rest → amount ≠ -0x8000000000000000 →
      r.run (.pointer (some ref) :: rest) w = .ok none w' →
      r'.run (.pointer (some ref) :: rest) w' = .ok none w := by
  refine ⟨fun hn hleast => ?_, fun hn => ?_, ?_⟩
  · obtain ⟨y, s, hy, hs, hrun⟩ := h.run_of_holds hleast hpath hget hx hn
    exact ⟨y, s, hy, hrun, Store.get_of_set hs, fun ref' => Store.get_of_apart hs⟩
  · by_cases hleast : d = .down ∧ amount = -0x8000000000000000
    · exact h.run_of_least hleast
    · exact h.run_of_not_holds hleast hpath hget hx (hn.resolve_right hleast)
  · exact fun r' w' h' hne hrun => h.run_back h' hne hpath hget hx hrun

/-- The last character of a string in an array is moved on by two places, and back again. -/
theorem moves_exact_character :
    let w : World := { store := ⟨#[some (.array 5 [.string "sea", .string "cat"])]⟩, console := .ofInput "" }
    let ref : Ref := ⟨0, [.element 6, .charAt 3]⟩
    let args : List Value := [.pointer (some ref), .integer 2]
    ∃ r ∈ stepRoutines "inc" 1, ∃ r' ∈ stepRoutines "dec" (-1), ∃ s : Store,
      r.run args w = .ok none { w with store := s } ∧ s.get ref = .ok (.char 'v') ∧
      s.get ⟨0, [.element 5]⟩ = .ok (.string "sea") ∧
      r'.run args { w with store := s } = .ok none w := by
  intro w ref args
  have htwo : (Value.integer 2).Numbered .integer 2 := ⟨rfl, rfl⟩
  have hmoves (d : Direction) : ∃ r ∈ stepRoutines d.routine d.step, Moves d r .char 2 [.integer 2] :=
    ⟨_, by simp [stepRoutines], moves_of_mem (by simp [stepRoutines]) htwo⟩
  obtain ⟨r, hr, hinc⟩ := hmoves .up
  obtain ⟨r', hr', hdec⟩ := hmoves .down
  have hpath : CharLast ref.path := by
    intro index
    simp [ref]
  have ht : (Value.char 't').Numbered .char 116 := ⟨rfl, rfl⟩
  obtain ⟨hexact, -, hback⟩ := moves_exact (w := w) hinc hpath rfl ht
  obtain ⟨y, s, hy, hrun, hget, hothers⟩ := hexact (.inl ⟨by decide, by decide⟩) (by decide)
  cases hy.unique (w := .char 'v') ⟨rfl, rfl⟩
  exact ⟨r, hr, r', hr', s, hrun, hget, hothers ⟨0, [.element 5]⟩ (.inr (.here (by decide))),
    hback r' _ hdec (by decide) hrun⟩

/-- By the least amount a variable is moved from zero to the least integer, and cannot be moved back. -/
theorem moves_exact_least :
    let least : Value := .long (-9223372036854775808)
    let w : World := { store := ⟨#[some (.long 0)]⟩, console := .ofInput "" }
    let w' : World := { store := ⟨#[some least]⟩, console := .ofInput "" }
    let args : List Value := [.pointer (some ⟨0, []⟩), least]
    ∃ r r', Moves .up r .long (-9223372036854775808) [least] ∧
      Moves .down r' .long (-9223372036854775808) [least] ∧
      r.run args w = .ok none w' ∧ least.Numbered .long (-9223372036854775808) ∧
      Basic.long.Holds (Direction.moved .down (-9223372036854775808) (-9223372036854775808)) ∧
      r'.run args w' = .error (.fault (.overflow "ordinal")) w' := by
  intro least w w' args
  have hleast : least.Numbered .long (-9223372036854775808) := ⟨rfl, rfl⟩
  have hmoves (d : Direction) : ∃ r, Moves d r .long (-9223372036854775808) [least] ∧
      r.run = fun args => do stepInPlace d.step args; return none :=
    ⟨_, moves_of_mem (by simp [stepRoutines]) hleast, rfl⟩
  obtain ⟨r, hinc, hr⟩ := hmoves .up
  obtain ⟨r', hdec, hr'⟩ := hmoves .down
  refine ⟨r, r', hinc, hdec, ?_, hleast, ⟨by decide, by decide⟩, ?_⟩
  · rw [hr]
    rfl
  · rw [hr']
    rfl

end Library

end Pascal
