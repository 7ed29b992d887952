import Pascal.Decimal.Shortest

/-! # Doubles with a fixed number of decimal places -/

namespace Pascal.Decimal

/-- The whole number nearest to `num / den`, halves going to the even neighbour. -/
def roundEven (num den : Nat) : Nat :=
  let q := num / den
  let r := num % den
  if 2 * r < den then q
  else if den < 2 * r then q + 1
  else if q % 2 = 0 then q else q + 1

/-- `n / 10 ^ places` with exactly so many places. -/
def withPlaces (n places : Nat) : List Char :=
  let ds := numeral n
  let padded := List.replicate (places + 1 - ds.length) '0' ++ ds
  let whole := padded.length - places
  if places = 0 then padded else padded.take whole ++ '.' :: padded.drop whole

/-- The exact value of a double rounded to so many decimal places. -/
def fixed (x : Float) (places : Nat) : String :=
  if x.isNaN then "NaN"
  else
    let sign := if isNegative x then ['-'] else []
    let body :=
      if x.isInf then ['i', 'n', 'f']
      else
        let b := Binary.ofFloat x
        withPlaces (roundEven (b.num * Nat.pow 10 places) b.den) places
    String.ofList (sign ++ body)

end Pascal.Decimal
