import Pascal.Program.Compile

/-!
# What reading can build

The readers of expressions, statements and declarations build their results with a few functions. The
relations here forget the text and keep which of these functions made what, so that a property of
compiled programs is shown by induction over how they were built. With `ranges = false` no array
constructor that was read holds a range.
-/

namespace Pascal

namespace SetItem

def isSingle : SetItem → Bool
  | single _ => true
  | range _ _ => false

end SetItem

/-- The expressions that can be read where names mean what `ctx` says. -/
inductive Expr.Built (ranges : Bool) (ctx : Context) : Expr → Prop where
  | token {k : Token.Kind} {v : Value} {ty : Ty} (p : Position) (h : k.literal? = some (v, ty)) :
      Built ranges ctx (.literal v ⟨ty, p⟩)
  | constant {name : String} {c : Constant} (p : Position) (h : ctx.lookup? name = some
      (.constant c)) :
      Built ranges ctx (.literal c.value ⟨c.ty, p⟩)
  | variable {name : String} {v : VarRef} {ty : Ty} (p : Position)
      (h : ctx.lookup? name = some (.var v ty)) : Built ranges ctx (.place (.var v) ⟨ty, p⟩)
  | call {name : String} {args : List Expr} {p : Position} {callee : Callee} {bound : List Arg}
      {ty : Ty} (hargs : ∀ e ∈ args, Built ranges ctx e)
      (h : ctx.arena.resolveCall ctx.scope name args p = .ok (callee, bound, some ty)) :
      Built ranges ctx (.call callee (ctx.arena.calleeName callee) bound ⟨ty, p⟩)
  | indexed {base index e : Expr} (hbase : Built ranges ctx base) (hindex : Built ranges ctx index)
      (h : base.indexed index = .ok e) : Built ranges ctx e
  | dereferenced {pointer : Expr} {p : Position} {e : Expr} (hpointer : Built ranges ctx pointer)
      (h : pointer.dereferenced p = .ok e) : Built ranges ctx e
  | address {target : Expr} {p : Position} {e : Expr} (htarget : Built ranges ctx target)
      (h : target.addressOf p = .ok e) : Built ranges ctx e
  | unary {op : UnaryOp} {operand : Expr} {p : Position} {e : Expr}
      (hoperand : Built ranges ctx operand) (h : operand.applyUnary op p = .ok e) :
      Built ranges ctx e
  | binary {op : BinaryOp} {left right : Expr} {p : Position} {e : Expr}
      (hleft : Built ranges ctx left) (hright : Built ranges ctx right)
      (h : left.applyBinary op right p = .ok e) : Built ranges ctx e
  | array {items : List SetItem} {p : Position} {e : Expr}
      (hitems : ∀ i ∈ items, ∀ e ∈ i.ends, Built ranges ctx e)
      (hsingle : ranges = false → ∀ i ∈ items, i.isSingle)
      (h : SetItem.construct items p = .ok e) : Built ranges ctx e
  | format {value width width' : Expr} {p : Position} (hvalue : Built ranges ctx value)
      (hwidth : Built ranges ctx width) (h : width.coerce .integer = .ok width') :
      Built ranges ctx (.format value width' none ⟨.string, p⟩)
  | formatReal {value width width' precision precision' : Expr} {p : Position}
      (hvalue : Built ranges ctx value) (hwidth : Built ranges ctx width)
      (h : width.coerce .integer = .ok width') (hprecision : Built ranges ctx precision)
      (h' : precision.coerce .integer = .ok precision') :
      Built ranges ctx (.format value width' (some precision') ⟨.string, p⟩)

namespace Context

/-- The places that stand for the result of a function around, with their types. -/
def IsResult (ctx : Context) (target : Place) (ty : Ty) : Prop :=
  ctx.ownResult? = some (target, ty) ∨ ∃ name, ctx.namedResult? name = some (target, ty)

/-- The same names where a loop is around. -/
def looping (ctx : Context) : Context := { ctx with inLoop := true }

end Context

/-- The statements that can be read. -/
inductive Stmt.Built (ranges : Bool) : Context → Stmt → Prop where
  | block {ctx : Context} {body : List Stmt} {p : Position}
      (h : ∀ s ∈ body, Built ranges ctx s) : Built ranges ctx (.block body p)
  | assign {ctx : Context} {target : Expr} {place : Place} {value v : Expr} {p : Position}
      (htarget : target.Built ranges ctx) (hplace : target.place? = some place)
      (hvalue : value.Built ranges ctx) (h : value.coerce target.ty = .ok v) :
      Built ranges ctx (.assign place v p)
  | assignResult {ctx : Context} {target : Place} {ty : Ty} {value v : Expr} {p : Position}
      (htarget : ctx.IsResult target ty) (hvalue : value.Built ranges ctx)
      (h : value.coerce ty = .ok v) : Built ranges ctx (.assign target v p)
  | call {ctx : Context} {name : String} {args : List Expr} {p : Position} {callee : Callee}
      {bound : List Arg} {result : Option Ty} {callee' : String} {pos : Position}
      (hargs : ∀ e ∈ args, e.Built ranges ctx)
      (h : ctx.arena.resolveCall ctx.scope name args p = .ok (callee, bound, result)) :
      Built ranges ctx (.call callee callee' bound pos)
  | ifThen {ctx : Context} {condition condition' : Expr} {yes : Stmt} {no : Option Stmt}
      {p : Position} (hcondition : condition.Built ranges ctx)
      (h : condition.coerce .boolean = .ok condition') (hyes : Built ranges ctx yes)
      (hno : ∀ s, no = some s → Built ranges ctx s) :
      Built ranges ctx (.ifThen condition' yes no p)
  | whileDo {ctx : Context} {condition condition' : Expr} {body : Stmt} {p : Position}
      (hcondition : condition.Built ranges ctx) (h : condition.coerce .boolean = .ok condition')
      (hbody : Built ranges ctx.looping body) :
      Built ranges ctx (.whileDo condition' body p)
  | repeatUntil {ctx : Context} {condition condition' : Expr} {body : List Stmt} {p : Position}
      (hcondition : condition.Built ranges ctx) (h : condition.coerce .boolean = .ok condition')
      (hbody : ∀ s ∈ body, Built ranges ctx.looping s) :
      Built ranges ctx (.repeatUntil body condition' p)
  | forDo {ctx : Context} {counter : Expr} {v : VarRef} {first first' : Expr}
      {direction : Direction} {last last' : Expr} {body : Stmt} {p : Position}
      (hcounter : counter.Built ranges ctx) (hplace : counter.place? = some (.var v))
      (hordinal : counter.ty.isOrdinal) (hfirst : first.Built ranges ctx)
      (h : first.coerce counter.ty = .ok first') (hlast : last.Built ranges ctx)
      (h' : last.coerce counter.ty = .ok last') (hbody : Built ranges ctx.looping body) :
      Built ranges ctx (.forDo (.var v) first' direction last' body p)
  | caseOf {ctx : Context} {selector : Expr} {arms : List Arm} {otherwise : Option Stmt}
      {p : Position} (hselector : selector.Built ranges ctx) (hordinal : selector.ty.isOrdinal)
      (harms : ∀ labels body, .mk labels body ∈ arms → Built ranges ctx body)
      (hotherwise : ∀ s, otherwise = some s → Built ranges ctx s) :
      Built ranges ctx (.caseOf selector arms otherwise p)
  | breakLoop {ctx : Context} {p : Position} (h : ctx.inLoop) : Built ranges ctx (.breakLoop p)
  | continueLoop {ctx : Context} {p : Position} (h : ctx.inLoop) :
      Built ranges ctx (.continueLoop p)
  | exitRoutine {ctx : Context} {p : Position} : Built ranges ctx (.exitRoutine p)
  | new {ctx : Context} {target : Expr} {place : Place} {pointee : Ty} {p : Position}
      (htarget : target.Built ranges ctx) (hty : target.ty = .pointer pointee)
      (hplace : target.place? = some place) : Built ranges ctx (.new place pointee p)
  | dispose {ctx : Context} {target : Expr} {place : Place} {pointee : Ty} {p : Position}
      (htarget : target.Built ranges ctx) (hty : target.ty = .pointer pointee)
      (hplace : target.place? = some place) : Built ranges ctx (.dispose place p)
  | empty {ctx : Context} {p : Position} : Built ranges ctx (.empty p)

/-- The types that can be written. -/
inductive Ty.Written (ctx : Context) : Ty → Prop where
  | declared {name : String} {ty : Ty}
      (h : ctx.arena.lookupType? ctx.scope name = some ty) : Written ctx ty
  | builtin {name : String} {ty : Ty} (h : Ty.builtin? name = some ty) : Written ctx ty
  | range {ty : Ty} (h : ty.isOrdinal) : Written ctx ty
  | openArray {element : Ty} (helement : Written ctx element) : Written ctx (.openArray element)
  | array {element : Ty} {lower upper : Int64} {bounds : Subrange} (helement : Written ctx element)
      (h : Subrange.between? lower upper = some bounds) : Written ctx (.array element bounds)
  | pointer {target : Ty} (htarget : Written ctx target) : Written ctx (.pointer target)

/-- The values that a variable of a type can be declared with. -/
inductive Value.Initial (ranges : Bool) (ctx : Context) : Ty → Value → Prop where
  | evaluated {e : Expr} {ty : Ty} {v : Value} (he : e.Built ranges ctx)
      (h : e.evaluateAs ty = .ok v) : Initial ranges ctx ty v
  | list {element : Ty} {bounds : Subrange} {items : List Value}
      (hitems : ∀ v ∈ items, Initial ranges ctx element v)
      (h : bounds.isOpen ∨ items.length = bounds.length) :
      Initial ranges ctx (.array element bounds) (.array bounds.lower items)

namespace Arena

/-- The arena with a library of the toolchain made known. -/
def withLibrary (a : Arena) (l : Library) : Arena :=
  let (id, a) := a.addLibrary l.name l.routines
  let start := Position.start l.name
  let a := l.constants.foldl (fun a (name, v, ty) => a.addLibraryConstant id ⟨name, v, ty, start⟩) a
  l.types.foldl (fun a (name, ty) => a.addLibraryType id name ty) a

/-- Declares variables of one type and one initial value. -/
def declareVariables (a : Arena) (scope : Nat) (names : List (String × Position)) (ty : Ty)
    (initial : Option Value) : Except ScopeError Arena :=
  names.foldlM (fun a (name, p) => do
    return (← a.declareVariable scope ⟨name, ty, p, initial⟩).2) a

/-- One step of reading the declarations of a scope. -/
inductive Declares (ranges : Bool) : Arena → Arena → Prop where
  | vars {a : Arena} {scope : Nat} {names : List (String × Position)} {ty : Ty}
      {initial : Option Value} {a' : Arena} (hscope : scope < a.scopes.size)
      (hty : ty.Written { arena := a, scope })
      (hinitial : ∀ v, initial = some v → v.Initial ranges { arena := a, scope } ty)
      (h : a.declareVariables scope names ty initial = .ok a') : Declares ranges a a'
  | constant {a : Arena} {scope : Nat} {e : Expr} {c : Constant} {a' : Arena}
      (hscope : scope < a.scopes.size) (he : e.Built ranges { arena := a, scope })
      (hvalue : e.evaluate = .ok (c.value, c.ty))
      (h : a.declareConstant scope c = .ok a') : Declares ranges a a'
  | type {a : Arena} {scope : Nat} {name : String} {ty : Ty} {p : Position} {a' : Arena}
      (hscope : scope < a.scopes.size) (hty : ty.Written { arena := a, scope })
      (h : a.declareType scope name ty p = .ok a') : Declares ranges a a'
  | header {a : Arena} {scope : Nat} {name : String} {signature : Signature} {p : Position}
      {id : Nat} {a₁ a₂ : Arena} (hscope : scope < a.scopes.size)
      (hparams : ∀ q ∈ signature.params, q.ty.Written { arena := a, scope })
      (hresult : ∀ ty, signature.result = some ty → ty.Written { arena := a, scope })
      (h : a.declareFunction scope name signature p = .ok (id, a₁))
      (h' : a₁.declareParameters id = .ok a₂) : Declares ranges a a₂
  | body {a : Arena} {id : Nat} {body : Stmt} (hid : id < a.functions.size)
      (hbody : body.Built ranges { arena := a, scope := (a.function id).scope }) :
      Declares ranges a (a.modifyFunction id fun f => { f with body := some body })

/-- One step of reading a program and the units it uses. -/
inductive Extends (ranges : Bool) (libraries : List Library) : Arena → Arena → Prop where
  | scope {a : Arena} {kind : ScopeKind} {name : String} (h : kind = .program ∨ kind = .unit) :
      Extends ranges libraries a (a.push kind name none).2
  | library {a : Arena} (l : Library) (h : l ∈ libraries) :
      Extends ranges libraries a (a.withLibrary l)
  | importLibrary {a : Arena} {scope id : Nat} :
      Extends ranges libraries a (a.addImport scope (.library id))
  | importUnit {a : Arena} {scope unit : Nat} (h : unit < a.scopes.size)
      (hkind : (a.scope unit).kind = .unit) :
      Extends ranges libraries a (a.addImport scope (.unit unit))
  | declares {a a' : Arena} (h : Declares ranges a a') : Extends ranges libraries a a'

end Arena

end Pascal
