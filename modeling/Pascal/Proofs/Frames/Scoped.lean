import Pascal.Proofs.Program.Session
import Pascal.Proofs.Run.Program
import Pascal.Proofs.Typing.Stmt

/-!
# Code of a scope

The code of a scope names variables that are visible there and calls routines that can be called there.
Folding it drops some of these names and adds none.
-/

namespace Pascal

/-- The routine that an expression calls has a property. -/
def Expr.onCallee (P : Callee → Bool) : Expr → Bool
  | .call callee _ _ _ => P callee
  | _ => true

/-- The variable that a place is has a property. -/
def Place.onVar (Q : VarRef → Bool) : Place → Bool
  | .var v => Q v
  | _ => true

/-- The routine that a statement calls has a property. -/
def Stmt.onCallee (P : Callee → Bool) : Stmt → Bool
  | .call callee _ _ _ => P callee
  | _ => true

section Folding

variable {P : Callee → Bool} {Q : VarRef → Bool}

theorem Expr.blind_onCallee (P : Callee → Bool) : Blind (onCallee P) where
  retype e t := by cases e <;> rfl
  literal _ _ := rfl
  place _ _ := rfl
  convert _ _ _ := rfl
  array _ _ _ := rfl
  range _ _ _ := rfl

private theorem Expr.all_settle {e : Expr} (h : e.all (onCallee P) (Place.onVar Q)) :
    e.settle.all (onCallee P) (Place.onVar Q) := by
  unfold settle
  split
  · simp [Expr.all, onCallee]
  · exact h

private theorem all_fold_all :
    (∀ e : Expr, e.all (Expr.onCallee P) (Place.onVar Q) →
      e.fold.all (Expr.onCallee P) (Place.onVar Q)) ∧
    (∀ p : Place, p.all (Expr.onCallee P) (Place.onVar Q) →
      p.fold.all (Expr.onCallee P) (Place.onVar Q)) ∧
    ∀ arg : Arg, arg.all (Expr.onCallee P) (Place.onVar Q) →
      arg.fold.all (Expr.onCallee P) (Place.onVar Q) := by
  refine Expr.induction ?literal ?place ?array ?range ?address ?unary ?binary ?convert ?format
    ?formatReal ?call ?var ?element ?charAt ?deref ?value ?reference
  case literal => exact fun v n h => h
  case place | address | range | element | charAt | deref | value | reference => 
    intros
    simp_all [Expr.fold, Place.fold, Arg.fold, Expr.all, Place.all, Arg.all, Expr.onCallee, Place.onVar]
  case unary | convert | binary | format | formatReal =>
    intros
    rw [Expr.fold]
    refine Expr.all_settle ?_
    simp_all [Expr.all, Expr.onCallee]
  case array =>
    intro lower items n ih h
    rw [Expr.fold, Expr.foldExprs_eq]
    refine Expr.all_settle ?_
    simp only [Expr.all, Expr.onCallee, Bool.true_and, allExprs_iff, List.forall_mem_map] at h ⊢
    exact fun e he => ih e he (h e he)
  case call =>
    intro callee name args n ih h
    rw [Expr.fold, Expr.foldArgs_eq]
    simp only [Expr.all, Expr.onCallee, Bool.and_eq_true, allArgs_iff, List.forall_mem_map] at h ⊢
    exact ⟨h.1, fun e he => ih e he (h.2 e he)⟩
  case var => exact fun v h => h

theorem allArgs_fold {args : List Arg} (h : allArgs (Expr.onCallee P) (Place.onVar Q) args) :
    allArgs (Expr.onCallee P) (Place.onVar Q) (foldArgs args) := by
  rw [Expr.foldArgs_eq]
  simp only [allArgs_iff, List.forall_mem_map] at h ⊢
  exact fun arg hm => all_fold_all.2.2 arg (h arg hm)

theorem Stmt.all_fold {s : Stmt} (h : s.all (Expr.onCallee P) (Place.onVar Q) (onCallee P)) :
    s.fold.all (Expr.onCallee P) (Place.onVar Q) (onCallee P) := by
  have he := (all_fold_all (P := P) (Q := Q)).1
  have hp := (all_fold_all (P := P) (Q := Q)).2.1
  induction s using Stmt.induction with
  | block body pos ih =>
    rw [Stmt.fold, foldStmts_eq]
    simp only [Stmt.all, onCallee, Bool.true_and, allStmts_iff, List.forall_mem_map] at h ⊢
    exact fun s hm => ih s hm (h s hm)
  | assign target value pos =>
    simp only [Stmt.fold, Stmt.all, onCallee, Bool.true_and, Bool.and_eq_true] at h ⊢
    exact ⟨hp _ h.1, he _ h.2⟩
  | call callee name args pos =>
    simp only [Stmt.fold, Stmt.all, onCallee, Bool.and_eq_true] at h ⊢
    exact ⟨h.1, allArgs_fold h.2⟩
  | ifThen condition yes no pos ihyes ihno =>
    simp only [Stmt.all, onCallee, Bool.true_and, Bool.and_eq_true] at h
    obtain ⟨⟨hc, hyes⟩, hno⟩ := h
    unfold Stmt.fold
    dsimp only
    split
    · exact ihyes hyes
    · exact ihno _ rfl hno
    · rfl
    · simp [Stmt.all, onCallee, he _ hc, ihyes hyes, allOption, ihno _ rfl hno]
    · simp [Stmt.all, onCallee, he _ hc, ihyes hyes, allOption]
  | whileDo condition body pos ih =>
    simp only [Stmt.all, onCallee, Bool.true_and, Bool.and_eq_true] at h
    unfold Stmt.fold
    dsimp only
    split
    · rfl
    · simp [Stmt.all, onCallee, he _ h.1, ih h.2]
  | repeatUntil body condition pos ih =>
    rw [Stmt.fold, foldStmts_eq]
    simp only [Stmt.all, onCallee, Bool.true_and, Bool.and_eq_true, allStmts_iff,
      List.forall_mem_map] at h ⊢
    exact ⟨fun s hm => ih s hm (h.1 s hm), he _ h.2⟩
  | forDo counter first direction last body pos ih =>
    simp only [Stmt.all, onCallee, Bool.true_and, Bool.and_eq_true] at h
    obtain ⟨⟨⟨hcounter, hfirst⟩, hlast⟩, hbody⟩ := h
    rw [Stmt.fold]
    split
    · simp [Stmt.all, onCallee, hp _ hcounter, he _ hfirst]
    · simp [Stmt.all, onCallee, hp _ hcounter, he _ hfirst, he _ hlast, ih hbody]
  | caseOf selector arms otherwise pos iharms ihotherwise =>
    rw [Stmt.fold, foldArms_eq, foldOption_eq]
    simp only [Stmt.all, onCallee, Bool.true_and, Bool.and_eq_true, allArms_iff] at h ⊢
    obtain ⟨⟨hsel, harms⟩, hotherwise⟩ := h
    refine ⟨⟨he _ hsel, fun labels body hm => ?_⟩, ?_⟩
    · obtain ⟨⟨labels', body'⟩, hmem, heq⟩ := List.mem_map.mp hm
      cases heq
      exact iharms labels body' hmem (harms labels body' hmem)
    · cases otherwise with
      | none => rfl
      | some s => exact ihotherwise s rfl hotherwise
  | breakLoop | continueLoop | exitRoutine | empty => rfl
  | new target pointee pos | dispose target pos =>
    simp only [Stmt.fold, Stmt.all, onCallee, Bool.true_and] at h ⊢
    exact hp _ h

end Folding

section Scoping

open Classical in
/-- Whether a routine can be called in a scope. -/
noncomputable def Arena.calls (a : Arena) (scope : Nat) (callee : Callee) : Bool :=
  decide (a.Callable scope callee)

open Classical in
/-- Whether a variable is visible in a scope. -/
noncomputable def Arena.sees (a : Arena) (scope : Nat) (v : VarRef) : Bool :=
  decide (a.Visible scope v.scope ∧ ∃ x, (a.scope v.scope).entity? v.name = some (.var x))

/-- An expression names what a scope can name. -/
def Expr.Scoped (a : Arena) (scope : Nat) (e : Expr) : Prop :=
  e.all (onCallee (a.calls scope)) (Place.onVar (a.sees scope))

def Place.Scoped (a : Arena) (scope : Nat) (p : Place) : Prop :=
  p.all (Expr.onCallee (a.calls scope)) (onVar (a.sees scope))

def Arg.Scoped (a : Arena) (scope : Nat) (arg : Arg) : Prop :=
  arg.all (Expr.onCallee (a.calls scope)) (Place.onVar (a.sees scope))

def Stmt.Scoped (a : Arena) (scope : Nat) (s : Stmt) : Prop :=
  s.all (Expr.onCallee (a.calls scope)) (Place.onVar (a.sees scope)) (onCallee (a.calls scope))

variable {a : Arena} {ranges : Bool} {ctx : Context}

/-- What can be read in a scope names what the scope can name. -/
theorem Expr.Built.scoped {e : Expr} (h : e.Built ranges ctx) (hn : ctx.arena.Nested)
    (hg : ctx.arena.Grows a) (hn' : a.Nested) (hscope : ctx.scope < ctx.arena.scopes.size) :
    e.Scoped a ctx.scope := by
  have hf := blind_onCallee (a.calls ctx.scope)
  unfold Scoped
  induction h with
  | token | constant => rfl
  | «variable» p h =>
    obtain ⟨hv, x, hx, -⟩ := Arena.lookup?_var hn h
    have hsees := hv.grow hg hn hn' hscope (Arena.lt_of_entity hx)
    simp [Expr.all, onCallee, Place.all, Place.onVar, Arena.sees, hsees, hg.var hx]
  | @call name args p callee bound ty hargs h ih =>
    obtain ⟨hcallable, -, m, hm, hb⟩ := Arena.resolveCall_eq_ok hn h
    have hcalls := hcallable.grow hg hn hn' hscope
    have hall := (all_boundAll hf hb (Signature.length_bindAll hm)).mpr ih
    simp [Expr.all, onCallee, Arena.calls, hcalls, hall]
  | indexed hbase hindex h ihb ihi =>
    obtain ⟨q, -, hall, hq⟩ := all_indexed (g := Place.onVar (a.sees ctx.scope)) hf h
    have hq : Place.onVar (a.sees ctx.scope) q := by
      cases q with
      | var v => exact absurd rfl (hq v)
      | _ => rfl
    simp [hall, hq, ihb, ihi]
  | dereferenced hpointer h ih => simp [all_dereferenced hf h, Place.onVar, ih]
  | address htarget h ih =>
    obtain ⟨q, n, rfl, rfl⟩ := addressOf_eq_ok h
    simpa [Expr.all, onCallee] using ih
  | unary hoperand h ih =>
    obtain ⟨-, rfl⟩ := applyUnary_eq_ok h
    simpa [Expr.all, onCallee] using ih
  | binary hleft hright h ihl ihr =>
    rw [all_applyBinary hf h, ihl, ihr]
    obtain ⟨left', right', result, -, rfl⟩ := applyBinary_eq_ok h
    rfl
  | array hitems hsingle h ih => exact (all_construct hf h).mpr ih
  | format hvalue hwidth h ihv ihw => simp [Expr.all, onCallee, all_coerce hf h, ihv, ihw]
  | formatReal hvalue hwidth h hprecision h' ihv ihw ihp =>
    simp [Expr.all, onCallee, all_coerce hf h, all_coerce hf h', ihv, ihw, ihp]

theorem Stmt.Built.scoped {s : Stmt} (h : s.Built ranges ctx) (hn : ctx.arena.Nested)
    (hh : ctx.arena.Headed) (hg : ctx.arena.Grows a) (hn' : a.Nested)
    (hscope : ctx.scope < ctx.arena.scopes.size) : s.Scoped a ctx.scope := by
  have hcoerced : ∀ {ctx : Context} {e e' : Expr} {t : Ty}, ctx.arena.Nested → ctx.arena.Grows a →
      ctx.scope < ctx.arena.scopes.size → e.Built ranges ctx → e.coerce t = .ok e' →
      e'.Scoped a ctx.scope := by
    intro ctx e e' t hn hg hscope he h
    rw [Expr.Scoped, Expr.all_coerce (Expr.blind_onCallee _) h]
    exact he.scoped hn hg hn' hscope
  have hplaced : ∀ {ctx : Context} {e : Expr} {p : Place}, ctx.arena.Nested → ctx.arena.Grows a →
      ctx.scope < ctx.arena.scopes.size → e.Built ranges ctx → e.place? = some p →
      p.Scoped a ctx.scope := by
    intro ctx e p hn hg hscope he h
    rw [Place.Scoped, Expr.all_place (Expr.blind_onCallee _) h]
    exact he.scoped hn hg hn' hscope
  induction h with
  | block h ih =>
    simp only [Scoped, Stmt.all, onCallee, Bool.true_and, allStmts_iff]
    exact fun s hm => ih s hm hn hh hg hscope
  | assign htarget hplace hvalue h =>
    have ht := hplaced hn hg hscope htarget hplace
    have hv := hcoerced hn hg hscope hvalue h
    simp only [Scoped, Stmt.all, onCallee, Bool.true_and, Bool.and_eq_true]
    exact ⟨ht, hv⟩
  | assignResult htarget hvalue h =>
    have hv := hcoerced hn hg hscope hvalue h
    obtain ⟨s, id, rfl, hs, -, -, hx⟩ := htarget.declared hn hh
    have hsees := Arena.Visible.grow (.inl hs) hg hn hn' hscope (Arena.lt_of_entity hx)
    simp only [Scoped, Stmt.all, onCallee, Bool.true_and, Bool.and_eq_true]
    exact ⟨by simp [Place.all, Place.onVar, Arena.sees, hsees, hg.var hx], hv⟩
  | @call ctx name args p callee bound result callee' pos hargs h =>
    obtain ⟨hcallable, -, m, hm, hb⟩ := Arena.resolveCall_eq_ok hn h
    have hcalls := hcallable.grow hg hn hn' hscope
    have hall := (Expr.all_boundAll (Expr.blind_onCallee (a.calls ctx.scope)) hb
      (Signature.length_bindAll hm)).mpr fun e he => (hargs e he).scoped hn hg hn' hscope
    simp [Scoped, Stmt.all, onCallee, Arena.calls, hcalls, hall]
  | @ifThen _ _ _ _ no _ hcondition h hyes hno ihyes ihno =>
    have hc := hcoerced hn hg hscope hcondition h
    simp only [Scoped, Stmt.all, onCallee, Bool.true_and, Bool.and_eq_true]
    refine ⟨⟨hc, ihyes hn hh hg hscope⟩, ?_⟩
    cases no with
    | none => rfl
    | some s => exact ihno s rfl hn hh hg hscope
  | whileDo hcondition h hbody ih =>
    simp only [Scoped, Stmt.all, onCallee, Bool.true_and, Bool.and_eq_true]
    exact ⟨hcoerced hn hg hscope hcondition h, ih hn hh hg hscope⟩
  | repeatUntil hcondition h hbody ih =>
    simp only [Scoped, Stmt.all, onCallee, Bool.true_and, Bool.and_eq_true, allStmts_iff]
    exact ⟨fun s hm => ih s hm hn hh hg hscope, hcoerced hn hg hscope hcondition h⟩
  | forDo hcounter hplace hordinal hfirst h hlast h' hbody ih =>
    simp only [Scoped, Stmt.all, onCallee, Bool.true_and, Bool.and_eq_true]
    exact ⟨⟨⟨hplaced hn hg hscope hcounter hplace, hcoerced hn hg hscope hfirst h⟩,
      hcoerced hn hg hscope hlast h'⟩, ih hn hh hg hscope⟩
  | @caseOf _ _ _ otherwise _ hselector hordinal harms hotherwise iharms ihotherwise =>
    simp only [Scoped, Stmt.all, onCallee, Bool.true_and, Bool.and_eq_true, allArms_iff]
    refine ⟨⟨hselector.scoped hn hg hn' hscope, fun labels body hm => ?_⟩, ?_⟩
    · exact iharms labels body hm hn hh hg hscope
    · cases otherwise with
      | none => rfl
      | some s => exact ihotherwise s rfl hn hh hg hscope
  | breakLoop | continueLoop | exitRoutine | empty => rfl
  | new htarget hty hplace | dispose htarget hty hplace =>
    simp only [Scoped, Stmt.all, onCallee, Bool.true_and]
    exact hplaced hn hg hscope htarget hplace

/-- Folding a statement adds no names. -/
theorem Stmt.Scoped.fold {scope : Nat} {s : Stmt} (h : s.Scoped a scope) : s.fold.Scoped a scope :=
  all_fold h

/-- All code of a call names what a scope can name. -/
def Code.Scoped (a : Arena) (scope : Nat) {α : Type} : Code α → Prop
  | .expr e => e.Scoped a scope
  | .place p => p.Scoped a scope
  | .items es => ∀ e ∈ es, e.Scoped a scope
  | .arg x => x.Scoped a scope
  | .args xs => ∀ x ∈ xs, x.Scoped a scope
  | .call callee _ => a.Callable scope callee
  | .stmt s => s.Scoped a scope
  | .stmts ss => ∀ s ∈ ss, s.Scoped a scope
  | .arms _ xs => ∀ labels body, .mk labels body ∈ xs → body.Scoped a scope
  | .whileRounds condition body _ => condition.Scoped a scope ∧ body.Scoped a scope
  | .repeatRounds body condition _ => (∀ s ∈ body, s.Scoped a scope) ∧ condition.Scoped a scope
  | .forRounds _ _ _ body _ _ => body.Scoped a scope

/-- All code of a program names what the scope that it stands in can name. -/
structure Program.Scoped (p : Program) : Prop where
  nested : p.arena.Nested
  headed : p.arena.Headed
  outermost : p.arena.functionOf? p.main = none ∧
    ∀ u ∈ p.units, p.arena.functionOf? u.scope = none
  body : p.body.Scoped p.arena p.main
  units : ∀ u ∈ p.units, ∀ s, u.initialization = some s ∨ u.finalization = some s →
    s.Scoped p.arena u.scope
  functions : ∀ id s, (p.arena.function id).body = some s →
    s.Scoped p.arena (p.arena.function id).scope
  bodies : ∀ id < p.arena.functions.size, ∃ s, (p.arena.function id).body = some s
  globals : ∀ n < p.arena.scopes.size, p.arena.functionOf? n = none →
    n ∈ p.units.map (·.scope) ++ [p.main]

namespace Program

variable {libraries : List Library} {p : Program}

theorem Elaborated.scoped (h : p.Elaborated ranges libraries) : p.Scoped := by
  have hn : p.arena.Nested := h.arena.nested .empty
  have hread : ∀ {scope : Nat} {s : Stmt}, s.Read ranges libraries p.arena scope →
      s.Scoped p.arena scope := by
    rintro scope s ⟨a, h₀, h₁, hscope, hs⟩
    have hna : a.Nested := h₀.nested .empty
    exact hs.scoped hna (h₀.headed .empty .empty) (h₁.grows hna) hn hscope
  have hkind : ∀ {s : Nat}, p.arena.functionOf? s = none ↔
      (p.arena.scope s).kind = .program ∨ (p.arena.scope s).kind = .unit := by
    intro s
    unfold Arena.functionOf?
    cases (p.arena.scope s).kind <;> simp
  refine ⟨hn, h.arena.headed .empty .empty, ⟨hkind.mpr (.inl h.main.2),
    fun u hu => hkind.mpr (.inr (h.units u hu).2.1)⟩, hread h.body,
    fun u hu s hs => hread ((h.units u hu).2.2 s hs), fun id s hs => hread (h.arena.body hs).2,
    h.bodies, fun n hn hnone => ?_⟩
  obtain ⟨hmain, hunit⟩ := h.globals n hn
  rcases hkind.mp hnone with hk | hk
  · exact List.mem_append_right _ (by simp [hmain hk])
  · obtain ⟨u, hu, rfl⟩ := hunit hk
    exact List.mem_append_left _ (List.mem_map_of_mem hu)

theorem Scoped.fold (h : p.Scoped) : p.fold.Scoped := by
  have ha := p.alike_fold
  have hscoped : ∀ {scope : Nat} {s : Stmt}, s.Scoped p.arena scope →
      s.fold.Scoped p.fold.arena scope := by
    intro scope s hs
    have hcalls : p.fold.arena.calls scope = p.arena.calls scope := by
      funext callee
      exact decide_eq_decide.mpr ha.callable
    have hsees : p.fold.arena.sees scope = p.arena.sees scope := by
      funext v
      refine decide_eq_decide.mpr ?_
      rw [ha.visible, ha.scope]
    rw [Stmt.Scoped, hcalls, hsees]
    exact hs.fold
  have hfunctionOf : p.fold.arena.functionOf? = p.arena.functionOf? := rfl
  refine ⟨ha.nested h.nested, ha.headed h.headed, ⟨h.outermost.1, fun u hu => ?_⟩, hscoped h.body,
    fun u hu s hs => ?_, fun id s hs => ?_, fun id hid => ?_, fun n hn hnone => ?_⟩
  · obtain ⟨v, hv, rfl⟩ := List.mem_map.mp hu
    exact h.outermost.2 v hv
  · obtain ⟨v, hv, rfl⟩ := List.mem_map.mp hu
    have hs : ∃ t, (v.initialization = some t ∨ v.finalization = some t) ∧ t.fold = s := by
      rcases hs with hs | hs
      · obtain ⟨t, ht, rfl⟩ := Option.map_eq_some_iff.mp hs
        exact ⟨t, .inl ht, rfl⟩
      · obtain ⟨t, ht, rfl⟩ := Option.map_eq_some_iff.mp hs
        exact ⟨t, .inr ht, rfl⟩
    obtain ⟨t, ht, rfl⟩ := hs
    exact hscoped (h.units v hv t ht)
  · rw [(p.heading_fold id).2] at hs
    obtain ⟨t, ht, rfl⟩ := Option.map_eq_some_iff.mp hs
    rw [ha.ownScope]
    exact hscoped (h.functions id t ht)
  · rw [ha.size] at hid
    obtain ⟨s, hs⟩ := h.bodies id hid
    exact ⟨s.fold, by rw [(p.heading_fold id).2, hs, Option.map_some]⟩
  · have hmem := h.globals n hn hnone
    simpa [Program.fold, List.map_map, Function.comp_def] using hmem

end Program

end Scoping

end Pascal
