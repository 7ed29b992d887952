import Pascal.Decimal.Binary

/-! # The fewest digits that identify a double

A decimal identifies a double if it lies among the reals that round to it. `shortest` tries one
digit, two digits and so on, and takes the nearest decimal of the first length at which one of the
two neighbours of the value identifies it. -/

namespace Pascal.Decimal

/-- The number `0.d₁d₂…dₙ * 10 ^ point`, where `d₁d₂…dₙ` are the decimal digits of `digits`. -/
structure Digits where
  digits : Nat
  point : Int
deriving DecidableEq, Repr

/-- Decimal digits of a natural number, as characters. -/
def numeral (n : Nat) : List Char := Nat.toDigits 10 n

/-- The number of decimal digits before the point of `x`, which is not zero; it is negative when
zeros follow the point. -/
def Binary.point (x : Binary) : Int :=
  if x.den ≤ x.num then (numeral (x.num / x.den)).length
  else
    let t := (numeral (x.den / x.num)).length
    if x.num * Nat.pow 10 (t - 1) = x.den then 2 - (t : Int) else 1 - (t : Int)

/-- Whether `c * 10 ^ e` lies among the reals that round to `x`. -/
def Binary.identifies (x : Binary) (c : Nat) (e : Int) : Bool :=
  let scale := Nat.pow 2 (x.q - 2).toNat * Nat.pow 10 (-e).toNat
  let lo := (if x.narrowBelow then 4 * x.m - 1 else 4 * x.m - 2) * scale
  let hi := (4 * x.m + 2) * scale
  let v := c * Nat.pow 10 e.toNat * Nat.pow 2 (2 - x.q).toNat
  if x.m % 2 = 0 then lo ≤ v && v ≤ hi else lo < v && v < hi

/-- The nearest identifying decimal with `n` digits; two that are equally near give the larger. -/
def Binary.withDigits? (x : Binary) (n : Nat) : Option Digits :=
  let e := x.point - n
  let num := x.num * Nat.pow 10 (-e).toNat
  let den := x.den * Nat.pow 10 e.toNat
  let below := num / den
  let pick (c : Nat) : Digits :=
    ⟨c, x.point + ((numeral c).length - n : Int)⟩
  match x.identifies below e, x.identifies (below + 1) e with
  | true, true => some (pick (if 2 * (num % den) < den then below else below + 1))
  | true, false => some (pick below)
  | false, true => some (pick (below + 1))
  | false, false => none

/-- The digits of the decimal that identifies `x`, which is not zero. -/
def Binary.shortest (x : Binary) : Digits :=
  ((List.range 17).findSome? (fun n => x.withDigits? (n + 1))).getD
    ⟨x.num * Nat.pow 5 (-x.q).toNat,
      ((numeral (x.num * Nat.pow 5 (-x.q).toNat)).length : Int) - (-x.q).toNat⟩

def dropZeros (cs : List Char) : List Char := (cs.reverse.dropWhile (· = '0')).reverse

/-- The digits without zeros at the end. -/
def Digits.chars (d : Digits) : List Char := dropZeros (numeral d.digits)

def zeros (n : Nat) : List Char := List.replicate n '0'

/-- The number written out, with a point only where digits follow it. -/
def Digits.positional (d : Digits) : List Char :=
  let ds := d.chars
  if d.point ≤ 0 then '0' :: '.' :: zeros (-d.point).toNat ++ ds
  else
    let k := d.point.toNat
    if ds.length ≤ k then ds ++ zeros (k - ds.length) else ds.take k ++ '.' :: ds.drop k

/-- The decimal digits of an integer behind its sign. -/
def integer (n : Int) : List Char :=
  if n < 0 then '-' :: numeral n.natAbs else numeral n.natAbs

/-- One digit, a point, at least one more digit, and the power of ten behind an `E`. -/
def Digits.scientific (d : Digits) : List Char :=
  let fraction := match d.chars.drop 1 with
    | [] => ['0']
    | ds => ds
  d.chars.take 1 ++ '.' :: fraction ++ 'E' :: integer (d.point - 1)

/-- A double in full: whole numbers have no point, and nothing is left to a power of ten. -/
def plain (x : Float) : String :=
  if x.isNaN then "NaN"
  else
    let sign := if isNegative x then ['-'] else []
    let body :=
      if x.isInf then ['i', 'n', 'f']
      else
        let b := Binary.ofFloat x
        if b.m = 0 then ['0'] else b.shortest.positional
    String.ofList (sign ++ body)

end Pascal.Decimal
