/-! # Places in a source text -/

namespace Pascal

/-- A line and a column, both counted from one, in the source text called `unit`. -/
structure Position where
  unit : String
  line : Nat
  column : Nat
deriving DecidableEq, Repr, Inhabited

namespace Position

def start (unit : String) : Position := ⟨unit, 1, 1⟩

/-- The place behind the character `c`. -/
def next (p : Position) (c : Char) : Position :=
  if c = '\n' then ⟨p.unit, p.line + 1, 1⟩ else ⟨p.unit, p.line, p.column + 1⟩

/-- The place behind a run of characters. -/
def after (p : Position) (cs : List Char) : Position := cs.foldl next p

def text (p : Position) : String := p.unit ++ ":" ++ toString p.line ++ ":" ++ toString p.column

@[simp] theorem after_nil (p : Position) : p.after [] = p := rfl

@[simp] theorem after_cons (p : Position) (c : Char) (cs : List Char) :
    p.after (c :: cs) = (p.next c).after cs := rfl

theorem after_append (p : Position) (cs ds : List Char) :
    p.after (cs ++ ds) = (p.after cs).after ds := by
  simp [after]

end Position

end Pascal
