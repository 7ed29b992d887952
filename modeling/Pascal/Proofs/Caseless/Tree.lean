import Pascal.Proofs.Fold.Ends
import Pascal.Proofs.Tree.Induction
import Pascal.Proofs.Typing.Stmt
import Pascal.Text.Name

/-!
# Trees in lower case

A tree has names only where it calls a routine; variables have theirs in lower case already. Nothing
that is asked of a tree depends on them, so that folding commutes with putting them in lower case.
-/

namespace Pascal

/-- The name of a routine of the program in lower case; library routines have one spelling only. -/
def Callee.lowered (callee : Callee) (name : String) : String :=
  match callee with
  | .user _ => Text.lower name
  | .native _ => name

mutual

def Expr.lowered : Expr → Expr
  | .literal v n => .literal v n
  | .place p n => .place p.lowered n
  | .array lower items n => .array lower (loweredExprs items) n
  | .range low high n => .range low.lowered high.lowered n
  | .address p n => .address p.lowered n
  | .unary op e n => .unary op e.lowered n
  | .binary op l r n => .binary op l.lowered r.lowered n
  | .convert c e n => .convert c e.lowered n
  | .format v w none n => .format v.lowered w.lowered none n
  | .format v w (some p) n => .format v.lowered w.lowered (some p.lowered) n
  | .call callee name args n => .call callee (callee.lowered name) (loweredArgs args) n

def Place.lowered : Place → Place
  | .var v => .var v
  | .element base index => .element base.lowered index.lowered
  | .charAt base index => .charAt base.lowered index.lowered
  | .deref pointer => .deref pointer.lowered

def Arg.lowered : Arg → Arg
  | .value e => .value e.lowered
  | .reference p => .reference p.lowered

def loweredExprs : List Expr → List Expr
  | [] => []
  | e :: es => e.lowered :: loweredExprs es

def loweredArgs : List Arg → List Arg
  | [] => []
  | a :: as => a.lowered :: loweredArgs as

end

attribute [simp] Expr.lowered Place.lowered Arg.lowered

mutual

def Stmt.lowered : Stmt → Stmt
  | .block body pos => .block (loweredStmts body) pos
  | .assign target value pos => .assign target.lowered value.lowered pos
  | .call callee name args pos => .call callee (callee.lowered name) (loweredArgs args) pos
  | .ifThen condition yes no pos => .ifThen condition.lowered yes.lowered (loweredOption no) pos
  | .whileDo condition body pos => .whileDo condition.lowered body.lowered pos
  | .repeatUntil body condition pos => .repeatUntil (loweredStmts body) condition.lowered pos
  | .forDo counter first direction last body pos =>
    .forDo counter.lowered first.lowered direction last.lowered body.lowered pos
  | .caseOf selector arms otherwise pos =>
    .caseOf selector.lowered (loweredArms arms) (loweredOption otherwise) pos
  | .breakLoop pos => .breakLoop pos
  | .continueLoop pos => .continueLoop pos
  | .exitRoutine pos => .exitRoutine pos
  | .new target pointee pos => .new target.lowered pointee pos
  | .dispose target pos => .dispose target.lowered pos
  | .empty pos => .empty pos

def Arm.lowered : Arm → Arm
  | .mk labels body => .mk labels body.lowered

def loweredStmts : List Stmt → List Stmt
  | [] => []
  | s :: ss => s.lowered :: loweredStmts ss

def loweredArms : List Arm → List Arm
  | [] => []
  | a :: as => a.lowered :: loweredArms as

def loweredOption : Option Stmt → Option Stmt
  | none => none
  | some s => some s.lowered

end

attribute [simp] Stmt.lowered Arm.lowered

@[simp] theorem loweredExprs_eq (es : List Expr) : loweredExprs es = es.map Expr.lowered := by
  induction es with
  | nil => rfl
  | cons e es ih => rw [loweredExprs, ih, List.map_cons]

@[simp] theorem loweredArgs_eq (as : List Arg) : loweredArgs as = as.map Arg.lowered := by
  induction as with
  | nil => rfl
  | cons a as ih => rw [loweredArgs, ih, List.map_cons]

@[simp] theorem loweredStmts_eq (ss : List Stmt) : loweredStmts ss = ss.map Stmt.lowered := by
  induction ss with
  | nil => rfl
  | cons s ss ih => rw [loweredStmts, ih, List.map_cons]

@[simp] theorem loweredArms_eq (arms : List Arm) : loweredArms arms = arms.map Arm.lowered := by
  induction arms with
  | nil => rfl
  | cons arm arms ih => rw [loweredArms, ih, List.map_cons]

@[simp] theorem loweredOption_eq (o : Option Stmt) : loweredOption o = o.map Stmt.lowered := by
  cases o <;> rfl

namespace Expr

theorem lowered_format (v w : Expr) (p : Option Expr) (n : Note) :
    (format v w p n).lowered = format v.lowered w.lowered (p.map Expr.lowered) n := by
  cases p <;> rw [Expr.lowered] <;> rfl

@[simp] theorem note_lowered (e : Expr) : e.lowered.note = e.note := by
  cases e with
  | format v w p n => cases p <;> rfl
  | _ => rfl

@[simp] theorem ty_lowered (e : Expr) : e.lowered.ty = e.ty := congrArg Note.ty e.note_lowered

@[simp] theorem pos_lowered (e : Expr) : e.lowered.pos = e.pos := congrArg Note.pos e.note_lowered

@[simp] theorem literal?_lowered (e : Expr) : e.lowered.literal? = e.literal? := by
  cases e with
  | format v w p n => cases p <;> rfl
  | _ => rfl

@[simp] theorem place?_lowered (e : Expr) : e.lowered.place? = e.place?.map Place.lowered := by
  cases e with
  | format v w p n => cases p <;> rfl
  | _ => rfl

theorem retype_lowered (t : Ty) (e : Expr) : e.lowered.retype t = (e.retype t).lowered := by
  cases e with
  | format v w p n => rw [lowered_format, retype, retype, lowered_format]
  | _ => simp [retype]

theorem convertTo?_lowered (e : Expr) (t : Ty) :
    e.lowered.convertTo? t = (e.convertTo? t).map Expr.lowered := by
  unfold convertTo?
  rw [ty_lowered, pos_lowered]
  cases Conversion.between? e.ty t with
  | none => rfl
  | some c =>
    cases hc : c.isRetype with
    | false => simp [hc]
    | true => simp [hc, retype_lowered]

/-- Only ranges are ranges in lower case. -/
theorem lowered_ne_range {e : Expr} (h : ∀ low high n, e ≠ .range low high n) :
    ∀ low high n, e.lowered ≠ .range low high n := by
  intro low high n he
  cases e with
  | range low' high' n' => exact h low' high' n' rfl
  | format v w p n => rw [lowered_format] at he; cases he
  | _ => simp at he

@[simp] theorem itemValues?_lowered (items : List Expr) :
    itemValues? (items.map Expr.lowered) = itemValues? items := by
  induction items with
  | nil => rfl
  | cons e items ih =>
    by_cases hrange : ∃ low high n, e = .range low high n
    · obtain ⟨low, high, n, rfl⟩ := hrange
      simp [itemValues?, ih]
    · have hne : ∀ low high n, e ≠ .range low high n := fun low high n h => hrange ⟨low, high, n, h⟩
      rw [List.map_cons, itemValues?, itemValues?, ih, literal?_lowered]
      · exact hne
      · exact lowered_ne_range hne

@[simp] theorem formatted?_lowered (e : Expr) : e.lowered.formatted? = e.formatted? := by
  cases e with
  | format v w p n => cases p <;> simp [formatted?]
  | _ => simp [formatted?]

@[simp] theorem constant?_lowered (e : Expr) : e.lowered.constant? = e.constant? := by
  cases e with
  | format v w p n =>
    rw [constant?, ← formatted?_lowered, lowered_format]
    rfl
  | _ => simp [constant?]

theorem settle_lowered (e : Expr) : e.lowered.settle = e.settle.lowered := by
  unfold settle
  rw [constant?_lowered, note_lowered]
  cases e.constant? <;> simp

private theorem fold_lowered_all :
    (∀ e : Expr, e.lowered.fold = e.fold.lowered) ∧ (∀ p : Place, p.lowered.fold = p.fold.lowered) ∧
    ∀ a : Arg, a.lowered.fold = a.fold.lowered := by
  refine Expr.induction ?literal ?place ?array ?range ?address ?unary ?binary ?convert ?format
    ?formatReal ?call ?var ?element ?charAt ?deref ?value ?reference
  case literal => exact fun v n => by simp [Expr.fold]
  case place => exact fun p n ih => by simp [Expr.fold, ih]
  case array =>
    intro lower items n ih
    have hitems : (items.map Expr.lowered).map Expr.fold = (items.map Expr.fold).map Expr.lowered := by
      simpa using ih
    rw [Expr.fold, ← settle_lowered, Expr.lowered, Expr.lowered, Expr.fold, loweredExprs_eq,
      loweredExprs_eq, foldExprs_eq, foldExprs_eq, hitems]
  case range => exact fun low high n ihl ihh => by simp [Expr.fold, ihl, ihh]
  case address => exact fun p n ih => by simp [Expr.fold, ih]
  case unary => exact fun op e n ih => by simp [Expr.fold, ih, ← settle_lowered]
  case binary => exact fun op l r n ihl ihr => by simp [Expr.fold, ihl, ihr, ← settle_lowered]
  case convert => exact fun c e n ih => by simp [Expr.fold, ih, ← settle_lowered]
  case format => exact fun v w n ihv ihw => by simp [Expr.fold, ihv, ihw, ← settle_lowered]
  case formatReal =>
    exact fun v w p n ihv ihw ihp => by simp [Expr.fold, ihv, ihw, ihp, ← settle_lowered]
  case call =>
    intro callee name args n ih
    have hargs : (args.map Arg.lowered).map Arg.fold = (args.map Arg.fold).map Arg.lowered := by
      simpa using ih
    rw [Expr.fold, Expr.lowered, Expr.lowered, Expr.fold, loweredArgs_eq, loweredArgs_eq, foldArgs_eq,
      foldArgs_eq, hargs]
  case var => exact fun v => by simp [Place.fold]
  case element => exact fun base index ihb ihi => by simp [Place.fold, ihb, ihi]
  case charAt => exact fun base index ihb ihi => by simp [Place.fold, ihb, ihi]
  case deref => exact fun pointer ih => by simp [Place.fold, ih]
  case value => exact fun e ih => by simp [Arg.fold, ih]
  case reference => exact fun p ih => by simp [Arg.fold, ih]

theorem fold_lowered (e : Expr) : e.lowered.fold = e.fold.lowered := fold_lowered_all.1 e

theorem crashes_lowered (e : Expr) : e.lowered.crashes = e.crashes := by
  rw [crashes, crashes, formatted?_lowered]

private theorem foldEnds_lowered_all : (∀ e : Expr, e.lowered.foldEnds = e.foldEnds) ∧
    (∀ p : Place, p.lowered.foldEnds = p.foldEnds) ∧ ∀ a : Arg, a.lowered.foldEnds = a.foldEnds := by
  refine Expr.induction ?literal ?place ?array ?range ?address ?unary ?binary ?convert ?format
    ?formatReal ?call ?var ?element ?charAt ?deref ?value ?reference
  case literal | var => intros; rfl
  case array =>
    intro lower items n ih
    simpa [Expr.foldEnds, foldExprsEnds_eq, List.all_map, Function.comp_def] using all_congr_mem ih
  case call =>
    intro callee name args n ih
    simpa [Expr.foldEnds, foldArgsEnds_eq, List.all_map, Function.comp_def] using all_congr_mem ih
  case format =>
    intro v w n ihv ihw
    rw [lowered_format]
    simp only [Option.map_none, Expr.foldEnds, ihv, ihw, fold_lowered]
    rw [← crashes_lowered (format v.fold w.fold none n), lowered_format, Option.map_none]
  case formatReal =>
    intro v w p n ihv ihw ihp
    rw [lowered_format]
    simp only [Option.map_some, Expr.foldEnds, ihv, ihw, ihp, fold_lowered]
    rw [← crashes_lowered (format v.fold w.fold (some p.fold) n), lowered_format, Option.map_some]
  case place | range | address | unary | binary | convert | element | charAt | deref | value |
      reference =>
    intros
    simp_all [Expr.foldEnds, Place.foldEnds, Arg.foldEnds]

theorem foldEnds_lowered (e : Expr) : e.lowered.foldEnds = e.foldEnds := foldEnds_lowered_all.1 e

theorem fold?_lowered (e : Expr) : e.lowered.fold? = e.fold?.map lowered := by
  unfold fold?
  rw [foldEnds_lowered, fold_lowered]
  split <;> rfl

end Expr

theorem Place.fold_lowered (p : Place) : p.lowered.fold = p.fold.lowered := Expr.fold_lowered_all.2.1 p

theorem foldArgs_lowered (args : List Arg) :
    foldArgs (args.map Arg.lowered) = (foldArgs args).map Arg.lowered := by
  rw [Expr.foldArgs_eq, Expr.foldArgs_eq, List.map_map, List.map_map]
  exact List.map_congr_left fun a _ => Expr.fold_lowered_all.2.2 a

namespace Stmt

@[simp] theorem pos_lowered (s : Stmt) : s.lowered.pos = s.pos := by
  cases s <;> rfl

@[simp] theorem constantCondition?_lowered (e : Expr) :
    constantCondition? e.lowered = constantCondition? e := by
  cases e with
  | format v w p n => cases p <;> rfl
  | _ => rfl

@[simp] theorem neverRuns_lowered (first : Expr) (d : Direction) (last : Expr) :
    neverRuns first.lowered d last.lowered = neverRuns first d last := by
  simp only [neverRuns, Expr.literal?_lowered]

theorem fold_lowered (s : Stmt) : s.lowered.fold = s.fold.lowered := by
  induction s using Stmt.induction with
  | block body pos ih =>
    simp only [Stmt.lowered, Stmt.fold, loweredStmts_eq, foldStmts_eq, List.map_map]
    congr 1
    exact List.map_congr_left ih
  | assign target value pos => simp [Stmt.fold, Place.fold_lowered, Expr.fold_lowered]
  | call callee name args pos => simp [Stmt.fold, foldArgs_lowered]
  | ifThen condition yes no pos ihyes ihno =>
    cases no with
    | none =>
      rw [Stmt.lowered, loweredOption_eq, Option.map_none]
      unfold Stmt.fold
      dsimp only
      rw [Expr.fold_lowered, constantCondition?_lowered]
      cases constantCondition? condition.fold with
      | none => simp [ihyes]
      | some b => cases b <;> simp [ihyes]
    | some no =>
      rw [Stmt.lowered, loweredOption_eq, Option.map_some]
      unfold Stmt.fold
      dsimp only
      rw [Expr.fold_lowered, constantCondition?_lowered]
      cases constantCondition? condition.fold with
      | none => simp [ihyes, ihno no rfl]
      | some b => cases b <;> simp [ihyes, ihno no rfl]
  | whileDo condition body pos ih =>
    rw [Stmt.lowered]
    unfold Stmt.fold
    dsimp only
    rw [Expr.fold_lowered, constantCondition?_lowered]
    cases constantCondition? condition.fold with
    | none => simp [ih]
    | some b => cases b <;> simp [ih]
  | repeatUntil body condition pos ih =>
    simp only [Stmt.lowered, Stmt.fold, loweredStmts_eq, foldStmts_eq, List.map_map, Expr.fold_lowered]
    congr 1
    exact List.map_congr_left ih
  | forDo counter first direction last body pos ih =>
    simp only [Stmt.lowered, Stmt.fold, Expr.fold_lowered, Place.fold_lowered, neverRuns_lowered]
    cases neverRuns first.fold direction last.fold <;> simp [ih]
  | caseOf selector arms otherwise pos iharms ihotherwise =>
    simp only [Stmt.lowered, Stmt.fold, loweredArms_eq, loweredOption_eq, foldArms_eq, foldOption_eq,
      List.map_map, Option.map_map, Expr.fold_lowered]
    congr 1
    · refine List.map_congr_left fun arm harm => ?_
      obtain ⟨labels, body⟩ := arm
      simp [Arm.fold, iharms labels body harm]
    · exact Option.map_congr ihotherwise
  | breakLoop | continueLoop | exitRoutine | empty => simp [Stmt.fold]
  | new target pointee pos => simp [Stmt.fold, Place.fold_lowered]
  | dispose target pos => simp [Stmt.fold, Place.fold_lowered]

theorem foldEnds_lowered (s : Stmt) : s.lowered.foldEnds = s.foldEnds := by
  have hargs : ∀ args : List Arg, foldArgsEnds (loweredArgs args) = foldArgsEnds args := by
    intro args
    have harg : ∀ a ∈ args, a.lowered.foldEnds = a.foldEnds := fun a _ => Expr.foldEnds_lowered_all.2.2 a
    simpa [foldArgsEnds_eq, List.all_map, Function.comp_def] using all_congr_mem harg
  have hplace := Expr.foldEnds_lowered_all.2.1
  induction s using Stmt.induction with
  | block body pos ih =>
    simpa [Stmt.foldEnds, foldStmtsEnds_eq, List.all_map, Function.comp_def] using all_congr_mem ih
  | call callee name args pos => simp only [Stmt.lowered, Stmt.foldEnds, hargs]
  | ifThen condition yes no pos ihyes ihno =>
    cases no with
    | none => simp [Stmt.foldEnds, Expr.foldEnds_lowered, ihyes]
    | some no => simp [Stmt.foldEnds, Expr.foldEnds_lowered, ihyes, ihno no rfl]
  | repeatUntil body condition pos ih =>
    simpa [Stmt.foldEnds, foldStmtsEnds_eq, Expr.foldEnds_lowered, List.all_map, Function.comp_def] using
      congrArg (· && condition.foldEnds) (all_congr_mem ih)
  | caseOf selector arms otherwise pos iharms ihotherwise =>
    have harms : (arms.map Arm.lowered).all Arm.foldEnds = arms.all Arm.foldEnds := by
      rw [List.all_map]
      refine all_congr_mem fun arm harm => ?_
      obtain ⟨labels, body⟩ := arm
      exact iharms labels body harm
    cases otherwise with
    | none => simp [Stmt.foldEnds, foldArmsEnds_eq, Expr.foldEnds_lowered, harms]
    | some s => simp [Stmt.foldEnds, foldArmsEnds_eq, Expr.foldEnds_lowered, harms, ihotherwise s rfl]
  | breakLoop | continueLoop | exitRoutine | empty => rfl
  | _ => simp_all [Stmt.foldEnds, Expr.foldEnds_lowered, Expr.fold_lowered]

end Stmt

end Pascal
