import Pascal.Proofs.Scope.Chain
import Pascal.Proofs.Typing.Arena

/-! # Typed statements and programs -/

namespace Pascal

variable {d : Discipline} {a : Arena}

mutual

/-- Statements whose expressions are typed and stand where values of their types are expected. Where
bounds count, only a value with declared bounds is assigned to a parameter that is passed by
reference. -/
def Stmt.Typed (d : Discipline) (a : Arena) : Stmt → Prop
  | .block body _ => stmtsTyped d a body
  | .assign target value _ => value.Typed d a ∧ target.Typed d a value.ty ∧
      (d.bounds → value.ty.isClosed ∨ ¬target.isView a)
  | .call callee _ args _ => argsTyped d a (a.signature callee).split.2 args
      (a.signature callee).split.1
  | .ifThen condition yes no _ => condition.Typed d a ∧ condition.ty = .boolean ∧
      yes.Typed d a ∧ optionTyped d a no
  | .whileDo condition body _ => condition.Typed d a ∧ condition.ty = .boolean ∧ body.Typed d a
  | .repeatUntil body condition _ => condition.Typed d a ∧ condition.ty = .boolean ∧
      stmtsTyped d a body
  | .forDo counter first _ last body _ => (∃ v, counter = .var v) ∧ first.ty.isOrdinal ∧
      counter.Typed d a first.ty ∧ first.Typed d a ∧ last.Typed d a ∧ last.ty = first.ty ∧
      body.Typed d a
  | .caseOf selector arms otherwise _ => selector.Typed d a ∧ selector.ty.isOrdinal ∧
      armsTyped d a arms ∧ optionTyped d a otherwise
  | .breakLoop _ | .continueLoop _ | .exitRoutine _ | .empty _ => True
  | .new target pointee _ => target.Typed d a (.pointer pointee)
  | .dispose target _ => ∃ t, target.Typed d a (.pointer t)

def Arm.Typed (d : Discipline) (a : Arena) : Arm → Prop
  | .mk _ body => body.Typed d a

def stmtsTyped (d : Discipline) (a : Arena) : List Stmt → Prop
  | [] => True
  | s :: ss => s.Typed d a ∧ stmtsTyped d a ss

def armsTyped (d : Discipline) (a : Arena) : List Arm → Prop
  | [] => True
  | arm :: arms => arm.Typed d a ∧ armsTyped d a arms

def optionTyped (d : Discipline) (a : Arena) : Option Stmt → Prop
  | none => True
  | some s => s.Typed d a

end

theorem stmtsTyped_iff {ss : List Stmt} : stmtsTyped d a ss ↔ ∀ s ∈ ss, s.Typed d a := by
  induction ss with
  | nil => simp [stmtsTyped]
  | cons s ss ih => simp [stmtsTyped, ih]

theorem armsTyped_iff {arms : List Arm} :
    armsTyped d a arms ↔ ∀ labels body, .mk labels body ∈ arms → body.Typed d a := by
  induction arms with
  | nil => simp [armsTyped]
  | cons arm arms ih =>
    obtain ⟨labels, body⟩ := arm
    simp only [armsTyped, Arm.Typed, ih, List.mem_cons, Arm.mk.injEq]
    constructor
    · rintro ⟨h, hs⟩ labels' body' (⟨-, rfl⟩ | hm)
      · exact h
      · exact hs labels' body' hm
    · exact fun hs => ⟨hs labels body (.inl ⟨rfl, rfl⟩), fun l b hm => hs l b (.inr hm)⟩

theorem optionTyped_iff {o : Option Stmt} : optionTyped d a o ↔ ∀ s, o = some s → s.Typed d a := by
  cases o <;> simp [optionTyped]

/-- A result is a variable of the type that is expected. -/
theorem Context.IsResult.typed {ctx : Context} {p : Place} {t : Ty} (h : ctx.IsResult p t)
    (hn : ctx.arena.Nested) (hh : ctx.arena.Headed) (hs : ctx.arena.Sound d)
    (hg : ctx.arena.Grows a) : p.Typed d a t := by
  obtain ⟨scope, id, rfl, -, hlt, ht, hv⟩ := h.declared hn hh
  exact ⟨Arena.varTy?_eq_some (hg.var hv), (hs.functions id hlt).1.result t ht⟩

namespace Stmt

/-- Whether a value with declared bounds is assigned, or to no parameter passed by reference. -/
def closes (a : Arena) : Stmt → Bool
  | .assign target value _ => value.ty.isClosed || !target.isView a
  | _ => true

/-- Where bounds count, no open array is passed on in a statement: neither by its address, nor to a
parameter that is passed by reference. -/
def Closes (d : Discipline) (a : Arena) (s : Stmt) : Prop :=
  d.bounds → s.all (Expr.closes a) (fun _ => true) (closes a)

/-- A statement that can be read is typed. -/
theorem Built.typed {ranges : Bool} {ctx : Context} {s : Stmt} (h : s.Built ranges ctx)
    (hs : ctx.arena.Sound d) (hn : ctx.arena.Nested)
    (hh : ctx.arena.Headed) (hg : ctx.arena.Grows a) (hranges : d.takesRanges = false → ranges = false)
    (hc : s.Closes d a) : s.Typed d a := by
  have hf := Expr.blind_closes a
  have hexact : ∀ {ctx : Context} {e : Expr}, ctx.arena.Sound d → ctx.arena.Nested →
      ctx.arena.Grows a → e.Built ranges ctx → e.Closes d a → e.Exact d a :=
    fun hs hn hg he hc => he.exact hs hn hg hranges hc
  -- an expression that is expected to be of a type, from one that was read
  have hcoerce : ∀ {ctx : Context} {e e' : Expr} {t : Ty}, ctx.arena.Sound d → ctx.arena.Nested →
      ctx.arena.Grows a → e.Built ranges ctx → e.coerce t = .ok e' → t.Tame d → e'.Closes d a →
      e'.Typed d a ∧ e'.ty = t := fun hs hn hg he h ht hc =>
    (hexact hs hn hg he (by rwa [Expr.Closes, ← Expr.all_coerce hf h])).typed.coerce ht h
  induction h with
  | block h ih =>
    simp only [Closes, Stmt.all, Bool.and_eq_true, allStmts_iff] at hc
    exact stmtsTyped_iff.mpr fun s hm => ih s hm hs hn hh hg fun hb => (hc hb).2 s hm
  | assign htarget hplace hvalue h =>
    simp only [Closes, Stmt.all, Bool.and_eq_true, Expr.all_place hf hplace] at hc
    have ht := hexact hs hn hg htarget fun hb => (hc hb).1.2
    obtain ⟨hv, hty⟩ := hcoerce hs hn hg hvalue h ht.typed.tame fun hb => (hc hb).2
    refine ⟨hv, hty ▸ ht.place _ hplace, fun hb => ?_⟩
    have hclosed := (hc hb).1.1
    simpa [closes] using hclosed
  | assignResult htarget hvalue h =>
    simp only [Closes, Stmt.all, Bool.and_eq_true] at hc
    have ht := htarget.typed hn hh hs hg
    obtain ⟨hv, hty⟩ := hcoerce hs hn hg hvalue h ht.tame fun hb => (hc hb).2
    refine ⟨hv, hty ▸ ht, fun hb => ?_⟩
    have hclosed := (hc hb).1.1
    simpa [closes] using hclosed
  | @call ctx name args p callee bound result callee' pos hargs h =>
    obtain ⟨hcallable, -, m, hm, hb⟩ := Arena.resolveCall_eq_ok hn h
    have ht := hs.signature hcallable
    simp only [Closes, Stmt.all, Bool.and_eq_true] at hc
    have hes : ∀ e ∈ args, e.Exact d a := fun e he => hexact hs hn hg (hargs e he) fun hbounds =>
      (Expr.all_boundAll hf hb (Signature.length_bindAll hm)).mp (hc hbounds).2 e he
    rw [Stmt.Typed, hg.signature_eq hcallable]
    exact Expr.argsTyped_of_bindAll hm hb hes ht.params ht.further
  | @ifThen _ _ _ _ no _ hcondition h hyes hno ihyes ihno =>
    simp only [Closes, Stmt.all, Bool.and_eq_true] at hc
    obtain ⟨hv, hty⟩ := hcoerce hs hn hg hcondition h (.basic _) fun hb => (hc hb).1.1.2
    refine ⟨hv, hty, ihyes hs hn hh hg fun hb => (hc hb).1.2, optionTyped_iff.mpr ?_⟩
    rintro s rfl
    exact ihno s rfl hs hn hh hg fun hb => (hc hb).2
  | whileDo hcondition h hbody ih =>
    simp only [Closes, Stmt.all, Bool.and_eq_true] at hc
    obtain ⟨hv, hty⟩ := hcoerce hs hn hg hcondition h (.basic _) fun hb => (hc hb).1.2
    exact ⟨hv, hty, ih hs hn hh hg fun hb => (hc hb).2⟩
  | repeatUntil hcondition h hbody ih =>
    simp only [Closes, Stmt.all, Bool.and_eq_true, allStmts_iff] at hc
    obtain ⟨hv, hty⟩ := hcoerce hs hn hg hcondition h (.basic _) fun hb => (hc hb).2
    exact ⟨hv, hty, stmtsTyped_iff.mpr fun s hm => ih s hm hs hn hh hg fun hb => (hc hb).1.2 s hm⟩
  | @forDo _ counter v _ _ _ _ _ _ _ hcounter hplace hordinal hfirst h hlast h' hbody ih =>
    simp only [Closes, Stmt.all, Bool.and_eq_true] at hc
    have hcount : counter.Exact d a := by
      refine hexact hs hn hg hcounter fun hb => ?_
      rw [← Expr.all_place hf hplace]
      exact (hc hb).1.1.1.2
    have ht := hcount.typed.tame
    obtain ⟨hf', hfty⟩ := hcoerce hs hn hg hfirst h ht fun hb => (hc hb).1.1.2
    obtain ⟨hl', hlty⟩ := hcoerce hs hn hg hlast h' ht fun hb => (hc hb).1.2
    exact ⟨⟨v, rfl⟩, hfty ▸ hordinal, hfty ▸ hcount.place _ hplace, hf', hl', hlty.trans hfty.symm,
      ih hs hn hh hg fun hb => (hc hb).2⟩
  | caseOf hselector hordinal harms hotherwise iharms ihotherwise =>
    simp only [Closes, Stmt.all, Bool.and_eq_true, allArms_iff] at hc
    have hsel := hexact hs hn hg hselector fun hb => (hc hb).1.1.2
    refine ⟨hsel.typed, hordinal, armsTyped_iff.mpr fun labels body hm => ?_,
      optionTyped_iff.mpr ?_⟩
    · exact iharms labels body hm hs hn hh hg fun hb => (hc hb).1.2 labels body hm
    · rintro s rfl
      exact ihotherwise s rfl hs hn hh hg fun hb => (hc hb).2
  | breakLoop | continueLoop | exitRoutine | empty => trivial
  | new htarget hty hplace =>
    simp only [Closes, Stmt.all, Bool.and_eq_true, Expr.all_place hf hplace] at hc
    have htarget := (hexact hs hn hg htarget fun hb => (hc hb).2).place _ hplace
    rwa [hty] at htarget
  | dispose htarget hty hplace =>
    simp only [Closes, Stmt.all, Bool.and_eq_true, Expr.all_place hf hplace] at hc
    exact ⟨_, hty ▸ (hexact hs hn hg htarget fun hb => (hc hb).2).place _ hplace⟩

theorem foldStmts_eq (ss : List Stmt) : foldStmts ss = ss.map Stmt.fold := by
  induction ss with
  | nil => rfl
  | cons s ss ih => rw [foldStmts, ih, List.map_cons]

theorem foldArms_eq (arms : List Arm) : foldArms arms = arms.map Arm.fold := by
  induction arms with
  | nil => rfl
  | cons arm arms ih => rw [foldArms, ih, List.map_cons]

theorem foldOption_eq (o : Option Stmt) : foldOption o = o.map Stmt.fold := by cases o <;> rfl

end Stmt

theorem Place.root?_fold (p : Place) : p.fold.root? = p.root? := by
  have h := Expr.induction (P := fun _ => True) (Q := fun p => p.fold.root? = p.root?)
    (R := fun _ => True)
  exact (h (by simp) (by simp) (by simp) (by simp) (by simp) (by simp) (by simp) (by simp) (by simp)
    (by simp) (by simp) (fun _ => rfl) (fun _ _ h _ => h) (fun _ _ h _ => h) (fun _ _ => rfl)
    (by simp) (by simp)).2.1 p

/-- A statement that is folded stays typed. -/
theorem Stmt.Typed.fold {s : Stmt} (h : s.Typed d a) : s.fold.Typed d a := by
  induction s using Stmt.induction with
  | block body pos ih =>
    rw [Stmt.fold, Stmt.foldStmts_eq]
    refine stmtsTyped_iff.mpr fun s hs => ?_
    obtain ⟨s, hm, rfl⟩ := List.mem_map.mp hs
    exact ih s hm (stmtsTyped_iff.mp h s hm)
  | assign target value pos =>
    obtain ⟨hv, ht, hc⟩ := h
    refine ⟨hv.fold, by simpa using ht.fold, fun hb => ?_⟩
    rw [Place.isView, Place.root?_fold, Expr.ty_fold]
    exact hc hb
  | call callee name args pos => exact Expr.argsTyped.fold h
  | ifThen condition yes no pos ihyes ihno =>
    obtain ⟨hc, hty, hyes, hno⟩ := h
    unfold Stmt.fold
    dsimp only
    split
    · exact ihyes hyes
    · exact ihno _ rfl hno
    · trivial
    · exact ⟨hc.fold, by simpa using hty, ihyes hyes, ihno _ rfl hno⟩
    · exact ⟨hc.fold, by simpa using hty, ihyes hyes, trivial⟩
  | whileDo condition body pos ih =>
    obtain ⟨hc, hty, hbody⟩ := h
    unfold Stmt.fold
    dsimp only
    split
    · trivial
    · exact ⟨hc.fold, by simpa using hty, ih hbody⟩
  | repeatUntil body condition pos ih =>
    obtain ⟨hc, hty, hbody⟩ := h
    rw [Stmt.fold, Stmt.foldStmts_eq]
    refine ⟨hc.fold, by simpa using hty, stmtsTyped_iff.mpr fun s hs => ?_⟩
    obtain ⟨s, hm, rfl⟩ := List.mem_map.mp hs
    exact ih s hm (stmtsTyped_iff.mp hbody s hm)
  | forDo counter first direction last body pos ih =>
    obtain ⟨⟨v, rfl⟩, ho, hcount, hf, hl, hty, hbody⟩ := h
    rw [Stmt.fold]
    have hcount' : Place.Typed d a (Place.var v).fold first.fold.ty := by simpa using hcount.fold
    split
    · refine ⟨hf.fold, hcount', fun hb => .inl ?_⟩
      rw [Expr.ty_fold]
      cases ht : first.ty <;> first | rfl | (rw [ht] at ho; cases ho)
    · exact ⟨⟨v, rfl⟩, by simpa using ho, hcount', hf.fold, hl.fold, by simpa using hty, ih hbody⟩
  | caseOf selector arms otherwise pos iharms ihotherwise =>
    obtain ⟨hsel, ho, harms, hotherwise⟩ := h
    rw [Stmt.fold, Stmt.foldArms_eq, Stmt.foldOption_eq]
    refine ⟨hsel.fold, by simpa using ho, armsTyped_iff.mpr fun labels body hm => ?_,
      optionTyped_iff.mpr fun s hs => ?_⟩
    · obtain ⟨⟨labels', body'⟩, hmem, he⟩ := List.mem_map.mp hm
      cases he
      exact iharms labels body' hmem (armsTyped_iff.mp harms labels body' hmem)
    · obtain ⟨s, hsome, rfl⟩ := Option.map_eq_some_iff.mp hs
      exact ihotherwise s hsome (optionTyped_iff.mp hotherwise s hsome)
  | breakLoop | continueLoop | exitRoutine | empty => trivial
  | new target pointee pos => exact Place.Typed.fold h
  | dispose target pos =>
    obtain ⟨t, ht⟩ := h
    exact ⟨t, ht.fold⟩

/-!
## Programs

A program whose libraries are well-typed is typed. Where bounds count, this asks of the program that it
passes on no open arrays by pointers or by parameters that are passed by reference.
-/

variable {ranges : Bool} {libraries : List Library}

namespace Program

/-- All statements of a program are typed. -/
structure Typed (d : Discipline) (p : Program) : Prop where
  arena : p.arena.Sound d
  body : p.body.Typed d p.arena
  units : ∀ u ∈ p.units, ∀ s, u.initialization = some s ∨ u.finalization = some s →
    s.Typed d p.arena
  functions : ∀ id s, (p.arena.function id).body = some s → s.Typed d p.arena

/-- Where bounds count, a program passes on no open arrays. -/
structure Closes (d : Discipline) (p : Program) : Prop where
  arena : p.arena.Closed d
  body : p.body.Closes d p.arena
  units : ∀ u ∈ p.units, ∀ s, u.initialization = some s ∨ u.finalization = some s →
    s.Closes d p.arena
  functions : ∀ id s, (p.arena.function id).body = some s → s.Closes d p.arena

/-- Where bounds do not count, nothing is asked for. -/
theorem closes_of_kinds (hb : d.bounds = false) (p : Program) : p.Closes d := by
  have hno : ∀ {P : Prop}, d.bounds → P := fun h => by rw [hb] at h; cases h
  exact ⟨hno, hno, fun _ _ _ _ => hno, fun _ _ _ => hno⟩

theorem Elaborated.typed {p : Program} (h : p.Elaborated ranges libraries)
    (hranges : d.takesRanges = false → ranges = false)
    (hl : ∀ l ∈ libraries, l.Fits d) (hc : p.Closes d) : p.Typed d := by
  have hread : ∀ {scope : Nat} {s : Stmt}, s.Read ranges libraries p.arena scope →
      s.Closes d p.arena → s.Typed d p.arena := by
    rintro scope s ⟨a, h₀, h₁, -, hs⟩ hcs
    have hn : a.Nested := h₀.nested .empty
    have hg : a.Grows p.arena := h₁.grows hn
    exact hs.typed (h₀.sound hranges hl (hc.arena.of_grows hg)) hn
      (h₀.headed .empty .empty) hg hranges hcs
  refine ⟨h.arena.sound hranges hl hc.arena, hread h.body hc.body, fun u hu s hs => ?_,
    fun id s hs => ?_⟩
  · exact hread ((h.units u hu).2.2 s hs) (hc.units u hu s hs)
  · exact hread (h.arena.body hs).2 (hc.functions id s hs)

end Program

end Pascal
