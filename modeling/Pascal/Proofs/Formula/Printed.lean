import Mathlib
import Pascal.Parse.Expr
import Pascal.Proofs.Token.Printed

/-!
# Formulas as rows of tokens

A formula is an expression as it is thought of before it is written: literals and variables of a scope
with operators between them. Written down, an operand stands in parentheses only where the ranks of the
operators, or the side on which operators of one rank associate, would make another formula of it.
-/

namespace Pascal

/-- A value that a token stands for. -/
inductive Literal where
  | boolean (b : Bool)
  | integer (n : Int32) (h : 0 ≤ n.toInt)
  | long (n : Int64) (h : Token.word32Limit ≤ n.toInt)
  | char (c : Char)
  /-- Text in quotes; a single character in quotes is one. -/
  | string (s : String) (h : s.length ≠ 1)

namespace Literal

def kind : Literal → Token.Kind
  | boolean b => .keyword (if b then .true else .false)
  | integer n _ => .integer n
  | long n _ => .long n
  | char c => .char c
  | string s _ => .string s

def value : Literal → Value
  | boolean b => .boolean b
  | integer n _ => .integer n
  | long n _ => .long n
  | char c => .char c
  | string s _ => .string s

def ty : Literal → Ty
  | boolean _ => .boolean
  | integer _ _ => .integer
  | long _ _ => .long
  | char _ => .char
  | string _ _ => .string

end Literal

/-- A variable of a scope, by a name that can be written. -/
structure Context.Variable (ctx : Context) where
  name : String
  isName : Token.IsName name.toList
  free : ∀ k : Keyword, name.toList.map Char.toLower ≠ k.text.toList
  ref : VarRef
  ty : Ty
  known : ctx.lookup? name = some (.var ref ty)

/-- An expression of literals and variables, with a note on every part. -/
inductive Formula (ctx : Context) (α : Type) where
  | literal (l : Literal) (note : α)
  | var (x : ctx.Variable) (note : α)
  | unary (op : UnaryOp) (operand : Formula ctx α) (note : α)
  | binary (op : BinaryOp) (h : op ≠ .member) (left right : Formula ctx α) (note : α)

def UnaryOp.kind : UnaryOp → Token.Kind
  | .not => .keyword .not
  | .negate => .symbol .minus

namespace BinaryOp

def kind : BinaryOp → Token.Kind
  | add => .symbol .plus
  | subtract => .symbol .minus
  | multiply => .symbol .star
  | divide => .symbol .slash
  | intDivide => .keyword .div
  | modulo => .keyword .mod
  | and => .keyword .and
  | or => .keyword .or
  | xor => .keyword .xor
  | shl => .keyword .shl
  | shr => .keyword .shr
  | equal => .symbol .equal
  | notEqual => .symbol .notEqual
  | less => .symbol .less
  | lessEqual => .symbol .lessEqual
  | greater => .symbol .greater
  | greaterEqual => .symbol .greaterEqual
  | member => .keyword .in_

/-- How close an operator binds: a comparison not at all, multiplication and its kin closest. -/
def rank : BinaryOp → Nat
  | multiply | divide | intDivide | modulo | and | shl | shr => 2
  | add | subtract | or | xor => 1
  | equal | notEqual | less | lessEqual | greater | greaterEqual | member => 0

/-- The rank that the left operand needs. Operators of one rank associate to the left, but comparisons
do not at all. -/
def leftRank (op : BinaryOp) : Nat := max op.rank 1

/-- The rank that the right operand needs. -/
def rightRank (op : BinaryOp) : Nat := op.rank + 1

end BinaryOp

/-- The tokens of an operand, in parentheses if need be. -/
def enclosed (inParens : Bool) (kinds : List Token.Kind) : List Token.Kind :=
  if inParens then .symbol .leftParen :: kinds ++ [.symbol .rightParen] else kinds

namespace Formula

variable {ctx : Context} {α : Type}

/-- The formula without its notes. -/
def bare : Formula ctx α → Formula ctx Unit
  | literal l _ => .literal l ()
  | var x _ => .var x ()
  | unary op e _ => .unary op e.bare ()
  | binary op h l r _ => .binary op h l.bare r.bare ()

/-- How close the parts of a formula stand together: literals, variables and signed operands closest. -/
def rank : Formula ctx α → Nat
  | literal _ _ | var _ _ | unary _ _ _ => 3
  | binary op _ _ _ _ => op.rank

/-- The tokens of a formula, with as few parentheses as can be. -/
def kinds : Formula ctx α → List Token.Kind
  | literal l _ => [l.kind]
  | var x _ => [.identifier x.name]
  | unary op e _ => op.kind :: enclosed (e.rank < 3) e.kinds
  | binary op _ l r _ =>
    enclosed (l.rank < op.leftRank) l.kinds ++ op.kind :: enclosed (r.rank < op.rightRank) r.kinds

/-- The tokens of a formula as an operand that needs a rank. -/
def kindsAt (s : Formula ctx α) (rank : Nat) : List Token.Kind := enclosed (s.rank < rank) s.kinds

end Formula

namespace Token

theorem Kind.printed_symbol (s : Symbol) : ∃ w, (Kind.symbol s).Printed w := ⟨_, .symbol s⟩

theorem Kind.printed_keyword (k : Keyword) : ∃ w, (Kind.keyword k).Printed w := by
  refine ⟨k.text.toList, .keyword ?_⟩
  cases k <;> decide

theorem printed_literal (l : Literal) : ∃ w, l.kind.Printed w := by
  cases l with
  | boolean b => exact Kind.printed_keyword _
  | integer n h => exact ⟨_, .integer (Int.toNat_of_nonneg h).symm .decimal⟩
  | long n h =>
    have hnonneg : 0 ≤ n.toInt := Int.le_trans (by decide) h
    have hlong : word32Limit ≤ n.toInt.toNat := by omega
    exact ⟨_, .long (Int.toNat_of_nonneg hnonneg).symm hlong .decimal⟩
  | char c => exact ⟨_, .char c⟩
  | string s h => exact ⟨_, .string h⟩

/-- What can be written token by token can be written with blanks between the tokens. -/
theorem exists_prints {ks : List Kind} (h : ∀ k ∈ ks, ∃ w, k.Printed w) : ∃ cs, Prints ks cs := by
  induction ks with
  | nil => exact ⟨_, .nil⟩
  | cons k ks ih =>
    obtain ⟨⟨w, hw⟩, hks⟩ := List.forall_mem_cons.mp h
    obtain ⟨cs, hcs⟩ := ih hks
    cases ks with
    | nil => exact ⟨w, .single hw⟩
    | cons next ks => exact ⟨_, .cons hw (.mk (by decide : Text.isBlank ' ') .nil) hcs⟩

end Token

namespace Formula

variable {ctx : Context} {α : Type}

theorem forall_mem_enclosed {P : Token.Kind → Prop} {inParens : Bool} {ks : List Token.Kind}
    (hleft : P (.symbol .leftParen)) (hright : P (.symbol .rightParen)) (h : ∀ k ∈ ks, P k) :
    ∀ k ∈ enclosed inParens ks, P k := by
  cases inParens with
  | false => exact h
  | true =>
    intro k hk
    simp only [enclosed, if_true, List.cons_append, List.mem_cons, List.mem_append, List.not_mem_nil,
      or_false] at hk
    rcases hk with rfl | hk | rfl
    · exact hleft
    · exact h k hk
    · exact hright

theorem printed_kinds (s : Formula ctx α) : ∀ k ∈ s.kinds, ∃ w, k.Printed w := by
  have hparen := fun s => Token.Kind.printed_symbol s
  induction s with
  | literal l _ => simpa [kinds] using Token.printed_literal l
  | var x _ =>
    have hname : (Token.Kind.identifier x.name).Printed x.name.toList := by
      have hname := Token.Kind.Printed.identifier x.isName x.free
      rwa [String.ofList_toList] at hname
    simpa [kinds] using ⟨_, hname⟩
  | unary op e _ ih =>
    refine List.forall_mem_cons.mpr ⟨?_, forall_mem_enclosed (hparen _) (hparen _) ih⟩
    cases op with
    | not => exact Token.Kind.printed_keyword _
    | negate => exact Token.Kind.printed_symbol _
  | binary op _ l r _ ihl ihr =>
    refine List.forall_mem_append.mpr ⟨forall_mem_enclosed (hparen _) (hparen _) ihl, ?_⟩
    refine List.forall_mem_cons.mpr ⟨?_, forall_mem_enclosed (hparen _) (hparen _) ihr⟩
    cases op <;> first | exact Token.Kind.printed_symbol _ | exact Token.Kind.printed_keyword _

/-- Every formula can be written. -/
theorem exists_source (s : Formula ctx α) : ∃ source : String, Token.Prints s.kinds source.toList := by
  obtain ⟨cs, hcs⟩ := Token.exists_prints s.printed_kinds
  exact ⟨String.ofList cs, by rwa [String.toList_ofList]⟩

end Formula

end Pascal
