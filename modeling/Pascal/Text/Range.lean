/-! # Ranges of code points -/

namespace Pascal.Text

/-- The code points from `first` to `last`, both included. -/
structure Range where
  first : Nat
  last : Nat
deriving DecidableEq, Repr

namespace Range

/-- Looks for `n` among the ranges with indices from `lo` up to but without `hi`. -/
def holdBetween (rs : Array Range) (n : Nat) : Nat → Nat → Nat → Bool
  | 0, _, _ => false
  | fuel + 1, lo, hi =>
    if lo < hi then
      let mid := (lo + hi) / 2
      match rs[mid]? with
      | none => false
      | some r =>
        if n < r.first then holdBetween rs n fuel lo mid
        else if n ≤ r.last then true
        else holdBetween rs n fuel (mid + 1) hi
    else false

/-- Whether one of the ranges, which ascend and lie apart, holds `n`. -/
def hold (rs : Array Range) (n : Nat) : Bool := holdBetween rs n rs.size 0 rs.size

end Range

end Pascal.Text
