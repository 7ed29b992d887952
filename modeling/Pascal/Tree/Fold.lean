import Pascal.Tree

/-! # Constant folding

Operands are folded first. A node whose operands are literals then becomes the literal of its value,
unless its evaluation is a fault: that is left for the run. -/

namespace Pascal

/-- The text of a constant, which refers to no storage. -/
def Value.constantText (v : Value) : String := v.showWith (fun _ => "^?")

namespace Expr

/-- The values of the items of an array constructor, if they are literals and ranges of literals. -/
def itemValues? : List Expr → Option (List Value)
  | [] => some []
  | .range low high _ :: items => do
    let values ← (Value.expandRange (← low.literal?) (← high.literal?)).toOption
    return values ++ (← itemValues? items)
  | item :: items => do
    let v ← item.literal?
    return v :: (← itemValues? items)

/-- What comes of formatting literals. -/
def formatted? : Expr → Option (Except Fault Value)
  | format v w none _ => do
    return Value.format Value.constantText (← v.literal?) (← w.literal?) none
  | format v w (some p) _ => do
    let p ← p.literal?
    return Value.format Value.constantText (← v.literal?) (← w.literal?) (some p)
  | _ => none

/-- The value of a node whose operands are literals. Storage and calls have no constant value. -/
def constant? : Expr → Option Value
  | literal v _ => some v
  | unary op e _ => do (Value.unary op (← e.literal?)).toOption
  | binary op l r _ => do (Value.binary op (← l.literal?) (← r.literal?)).toOption
  | convert c e _ => do (c.apply (← e.literal?)).toOption
  | format v w p n => do (← (format v w p n).formatted?).toOption
  | array lower items _ => do return .array lower (← itemValues? items)
  | range _ _ _ | place _ _ | address _ _ | call _ _ _ _ => none

/-- Whether the host breaks off while the value of a node is computed from literals. -/
def crashes (e : Expr) : Bool :=
  match e.formatted? with
  | some (.error f) => f.isCrash
  | _ => false

/-- The literal of a node that has a constant value, and any other node as it is. -/
def settle (e : Expr) : Expr :=
  match e.constant? with
  | some v => literal v e.note
  | none => e

end Expr

mutual

def Expr.fold : Expr → Expr
  | .literal v n => .literal v n
  | .place p n => .place p.fold n
  | .array lower items n => (Expr.array lower (foldExprs items) n).settle
  | .range low high n => .range low.fold high.fold n
  | .address p n => .address p.fold n
  | .unary op e n => (Expr.unary op e.fold n).settle
  | .binary op l r n => (Expr.binary op l.fold r.fold n).settle
  | .convert c e n => (Expr.convert c e.fold n).settle
  | .format v w none n => (Expr.format v.fold w.fold none n).settle
  | .format v w (some p) n => (Expr.format v.fold w.fold (some p.fold) n).settle
  | .call callee name args n => .call callee name (foldArgs args) n

def Place.fold : Place → Place
  | .var v => .var v
  | .element base index => .element base.fold index.fold
  | .charAt base index => .charAt base.fold index.fold
  | .deref pointer => .deref pointer.fold

def Arg.fold : Arg → Arg
  | .value e => .value e.fold
  | .reference p => .reference p.fold

def foldExprs : List Expr → List Expr
  | [] => []
  | e :: es => e.fold :: foldExprs es

def foldArgs : List Arg → List Arg
  | [] => []
  | a :: as => a.fold :: foldArgs as

end

namespace Stmt

def constantCondition? (e : Expr) : Option Bool :=
  match e with
  | .literal (.boolean b) _ => some b
  | _ => none

/-- Whether the bounds of a loop are literals that leave nothing between them. -/
def neverRuns (first : Expr) (direction : Direction) (last : Expr) : Bool :=
  match first.literal?, last.literal? with
  | some a, some b =>
    match Value.binary (if direction = .up then .greater else .less) a b with
    | .ok (.boolean true) => true
    | _ => false
  | _, _ => false

end Stmt

mutual

/-- Folds the expressions of a statement and drops branches and loops that can never run. -/
def Stmt.fold : Stmt → Stmt
  | .block body pos => .block (foldStmts body) pos
  | .assign target value pos => .assign target.fold value.fold pos
  | .call callee name args pos => .call callee name (foldArgs args) pos
  | .ifThen condition yes no pos =>
    let condition := condition.fold
    match Stmt.constantCondition? condition, no with
    | some true, _ => yes.fold
    | some false, some no => no.fold
    | some false, none => .empty pos
    | none, some no => .ifThen condition yes.fold (some no.fold) pos
    | none, none => .ifThen condition yes.fold none pos
  | .whileDo condition body pos =>
    let condition := condition.fold
    match Stmt.constantCondition? condition with
    | some false => .empty pos
    | _ => .whileDo condition body.fold pos
  | .repeatUntil body condition pos => .repeatUntil (foldStmts body) condition.fold pos
  | .forDo counter first direction last body pos =>
    let counter := counter.fold
    let first := first.fold
    let last := last.fold
    if Stmt.neverRuns first direction last then .assign counter first pos
    else .forDo counter first direction last body.fold pos
  | .caseOf selector arms otherwise pos =>
    .caseOf selector.fold (foldArms arms) (foldOption otherwise) pos
  | .breakLoop pos => .breakLoop pos
  | .continueLoop pos => .continueLoop pos
  | .exitRoutine pos => .exitRoutine pos
  | .new target pointee pos => .new target.fold pointee pos
  | .dispose target pos => .dispose target.fold pos
  | .empty pos => .empty pos

def Arm.fold : Arm → Arm
  | .mk labels body => .mk labels body.fold

def foldStmts : List Stmt → List Stmt
  | [] => []
  | s :: ss => s.fold :: foldStmts ss

def foldArms : List Arm → List Arm
  | [] => []
  | a :: as => a.fold :: foldArms as

def foldOption : Option Stmt → Option Stmt
  | none => none
  | some s => some s.fold

end

/-! ## Where folding breaks off

The host does not survive some operations, also where folding applies them to code that no run comes
to. There is no folded tree then. -/

mutual

/-- Whether an expression is folded to the end. -/
def Expr.foldEnds : Expr → Bool
  | .literal _ _ => true
  | .place p _ | .address p _ => p.foldEnds
  | .array _ items _ => foldExprsEnds items
  | .range low high _ => low.foldEnds && high.foldEnds
  | .unary _ e _ | .convert _ e _ => e.foldEnds
  | .binary _ l r _ => l.foldEnds && r.foldEnds
  | .format v w none n =>
    v.foldEnds && w.foldEnds && !(Expr.format v.fold w.fold none n).crashes
  | .format v w (some p) n =>
    v.foldEnds && w.foldEnds && p.foldEnds && !(Expr.format v.fold w.fold (some p.fold) n).crashes
  | .call _ _ args _ => foldArgsEnds args

def Place.foldEnds : Place → Bool
  | .var _ => true
  | .element base index | .charAt base index => base.foldEnds && index.foldEnds
  | .deref pointer => pointer.foldEnds

def Arg.foldEnds : Arg → Bool
  | .value e => e.foldEnds
  | .reference p => p.foldEnds

def foldExprsEnds : List Expr → Bool
  | [] => true
  | e :: es => e.foldEnds && foldExprsEnds es

def foldArgsEnds : List Arg → Bool
  | [] => true
  | a :: as => a.foldEnds && foldArgsEnds as

end

mutual

/-- Whether a statement is folded to the end. The body of a loop that is dropped is not folded. -/
def Stmt.foldEnds : Stmt → Bool
  | .block body _ => foldStmtsEnds body
  | .assign target value _ => target.foldEnds && value.foldEnds
  | .call _ _ args _ => foldArgsEnds args
  | .ifThen condition yes none _ => condition.foldEnds && yes.foldEnds
  | .ifThen condition yes (some no) _ => condition.foldEnds && yes.foldEnds && no.foldEnds
  | .whileDo condition body _ =>
    condition.foldEnds &&
      (Stmt.constantCondition? condition.fold == some false || body.foldEnds)
  | .repeatUntil body condition _ => foldStmtsEnds body && condition.foldEnds
  | .forDo counter first direction last body _ =>
    counter.foldEnds && first.foldEnds && last.foldEnds &&
      (Stmt.neverRuns first.fold direction last.fold || body.foldEnds)
  | .caseOf selector arms none _ => selector.foldEnds && foldArmsEnds arms
  | .caseOf selector arms (some otherwise) _ =>
    selector.foldEnds && foldArmsEnds arms && otherwise.foldEnds
  | .new target _ _ | .dispose target _ => target.foldEnds
  | .breakLoop _ | .continueLoop _ | .exitRoutine _ | .empty _ => true

def Arm.foldEnds : Arm → Bool
  | .mk _ body => body.foldEnds

def foldStmtsEnds : List Stmt → Bool
  | [] => true
  | s :: ss => s.foldEnds && foldStmtsEnds ss

def foldArmsEnds : List Arm → Bool
  | [] => true
  | a :: as => a.foldEnds && foldArmsEnds as

end

/-- The folded expression, unless folding breaks off. -/
def Expr.fold? (e : Expr) : Option Expr := if e.foldEnds then some e.fold else none

/-- The folded statement, unless folding breaks off. -/
def Stmt.fold? (s : Stmt) : Option Stmt := if s.foldEnds then some s.fold else none

end Pascal
