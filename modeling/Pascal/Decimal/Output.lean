import Pascal.Decimal.Shortest

/-! # How reals are shown

A real always shows a fraction. From a thousandth up to ten million it is written out; smaller and
larger magnitudes are one digit, a fraction and a power of ten. -/

namespace Pascal.Decimal

def withFraction (cs : List Char) : List Char :=
  if cs.contains '.' then cs else cs ++ ['.', '0']

def real (x : Float) : String :=
  if x.isNaN then "NaN"
  else
    let sign := if isNegative x then "-" else ""
    let size := x.abs
    if x.isInf then sign ++ "Infinity"
    else if size == 0.0 then sign ++ "0.0"
    else
      let digits := (Binary.ofFloat x).shortest
      if (1e-3 : Float) ≤ size ∧ size < (1e7 : Float) then
        sign ++ String.ofList (withFraction digits.positional)
      else sign ++ String.ofList digits.scientific

end Pascal.Decimal
