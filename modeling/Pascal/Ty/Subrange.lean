import Pascal.Decimal.Shortest

/-! # Index ranges

Bounds and sizes are 64-bit integers and computed as such: a result that does not fit goes round. -/

namespace Pascal

/-- The indices `lower`, `lower + 1`, … of an array of `size` elements. A negative size leaves the
range open. The last index of an array is one that 64 bits hold. -/
@[ext]
structure Subrange where
  lower : Int64
  size : Int64
  bounded : lower.toInt + size.toInt ≤ 0x8000000000000000 := by decide
deriving DecidableEq, Repr

namespace Subrange

/-- The range of an array whose bounds are not declared. -/
def unbounded : Subrange := ⟨0, -1, by decide⟩

/-- A size does not become larger where it goes round. -/
theorem bounded_between {lower upper : Int64} (h : ¬upper < lower) :
    lower.toInt + (upper - lower + 1).toInt ≤ 0x8000000000000000 := by
  have hsize : upper - lower + 1 = Int64.ofInt (upper.toInt - lower.toInt + 1) := by
    simp [Int64.ofInt_add, Int64.ofInt_sub]
  have hle := Int64.le_iff_toInt_le.mp (Int64.not_lt.mp h)
  have hround : (upper - lower + 1).toInt ≤ upper.toInt - lower.toInt + 1 := by
    rw [hsize, Int64.toInt_ofInt, Int.bmod_def, Int64.size]
    omega
  have hupper := upper.toInt_lt
  omega

/-- The range from `lower` to `upper`, unless they are in the wrong order. Where it has `2 ^ 63` indices
or more, its size goes round to a negative one, which leaves it open, or to zero. -/
def between? (lower upper : Int64) : Option Subrange :=
  if h : upper < lower then none else some ⟨lower, upper - lower + 1, bounded_between h⟩

def isOpen (r : Subrange) : Bool := r.size < 0

def upper (r : Subrange) : Int64 := r.lower + r.size - 1

/-- The number of indices; an open range has none of its own. -/
def length (r : Subrange) : Nat := r.size.toInt.toNat

def isEmpty (r : Subrange) : Bool := r.length == 0

def contains (r : Subrange) (index : Int64) : Bool :=
  r.isOpen || (r.lower ≤ index && index ≤ r.upper)

/-- Ranges agree if one of them is open or both have the same bounds. -/
def agrees (r t : Subrange) : Bool :=
  r.isOpen || t.isOpen || (r.lower == t.lower && r.size == t.size)

/-- Whether a value with range `r` can be stored where `target` is expected. An open target takes
every range, an open range fits no other target. -/
def fits (r target : Subrange) : Bool := target.isOpen || (!r.isOpen && r.agrees target)

def text (r : Subrange) : String :=
  if r.isOpen then ""
  else String.ofList (Decimal.integer r.lower.toInt ++ '.' :: '.' :: Decimal.integer r.upper.toInt)

end Subrange

end Pascal
