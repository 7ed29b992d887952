import Pascal.Text.Name

/-! # Reading numbers -/

namespace Pascal.Decimal

/-- The value of a run of decimal digits. -/
def value (ds : List Char) : Nat := ds.foldl (fun n c => 10 * n + (c.toNat - '0'.toNat)) 0

/-- The value of one hexadecimal digit. -/
def hexDigit? (c : Char) : Option Nat :=
  if c.isDigit then some (c.toNat - '0'.toNat)
  else if 'a' ≤ c ∧ c ≤ 'f' then some (c.toNat - 'a'.toNat + 10)
  else if 'A' ≤ c ∧ c ≤ 'F' then some (c.toNat - 'A'.toNat + 10)
  else none

/-- The value of a run of hexadecimal digits. -/
def hexValue (ds : List Char) : Nat := ds.foldl (fun n c => 16 * n + (hexDigit? c).getD 0) 0

/-- A run of digits, not empty. -/
def natural? (cs : List Char) : Option Nat :=
  if cs.isEmpty || !cs.all Char.isDigit then none else some (value cs)

/-- Digits behind an optional sign. -/
def integer? : List Char → Option Int
  | '-' :: cs => (natural? cs).map (fun n => -(n : Int))
  | '+' :: cs => (natural? cs).map (fun n => (n : Int))
  | cs => (natural? cs).map (fun n => (n : Int))

/-- The double nearest to `m * 10 ^ e`, halves going to the even neighbour. Exponents that leave the
range of doubles whatever the digits are cut off first. -/
def nearest (m : Nat) (e : Int) : Float :=
  let top := (m.log2 : Int) * 30103 / 100000 + e
  if m = 0 then 0.0
  else if 320 < top then 1.0 / 0.0
  else if top < -360 then 0.0
  else if e < 0 then Float.ofScientific m true e.natAbs
  else Float.ofScientific m false e.natAbs

/-- Digits with an optional point among, before or behind them, and an optional power of ten. -/
def magnitude? (cs : List Char) : Option Float :=
  let (whole, rest) := cs.span Char.isDigit
  let (fraction, rest) := match rest with
    | '.' :: rest => rest.span Char.isDigit
    | rest => ([], rest)
  if whole.isEmpty && fraction.isEmpty then none
  else
    let finish (e : Int) := some (nearest (value (whole ++ fraction)) (e - fraction.length))
    match rest with
    | [] => finish 0
    | c :: rest => if c = 'e' || c = 'E' then (integer? rest).bind finish else none

/-- A real number as text: a sign, and then a decimal or the name of a value that is not finite. -/
def real? (s : String) : Option Float :=
  let unsigned (cs : List Char) : Option Float :=
    let word := (cs.map Char.toLower)
    if word = "nan".toList then some (0.0 / 0.0)
    else if word = "inf".toList || word = "infinity".toList then some (1.0 / 0.0)
    else magnitude? cs
  match s.toList with
  | '-' :: cs => (unsigned cs).map (fun x => -x)
  | '+' :: cs => unsigned cs
  | cs => unsigned cs

end Pascal.Decimal
