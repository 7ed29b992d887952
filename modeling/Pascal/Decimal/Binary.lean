/-! # Binary floating-point numbers as exact products

A finite double is a sign and a product `m * 2 ^ q` of naturals and powers of two. All rounding of
this library is done on these exact values. -/

namespace Pascal.Decimal

/-- The magnitude `m * 2 ^ q` of a finite double. -/
structure Binary where
  m : Nat
  q : Int
  /-- The next smaller double is only half as far away as the next larger one. -/
  narrowBelow : Bool
deriving DecidableEq, Repr

/-- The magnitude of a finite double; its sign is ignored. -/
def Binary.ofFloat (x : Float) : Binary :=
  let b := x.toBits
  let e := ((b >>> 52) &&& 0x7FF).toNat
  let f := (b &&& 0xFFFFFFFFFFFFF).toNat
  if e = 0 then ⟨f, -1074, false⟩ else ⟨0x10000000000000 + f, (e : Int) - 1075, f == 0 && 1 < e⟩

/-- The magnitude as a fraction. -/
def Binary.num (x : Binary) : Nat := x.m * Nat.pow 2 x.q.toNat

def Binary.den (x : Binary) : Nat := Nat.pow 2 (-x.q).toNat

/-- Whether the sign bit is set, as it is for `-0.0` too. -/
def isNegative (x : Float) : Bool := x.toBits >>> 63 != 0

/-- The whole part of a finite double. -/
def truncate (x : Float) : Int :=
  let b := Binary.ofFloat x
  let n : Nat := b.num / b.den
  if isNegative x then -(n : Int) else n

/-- The nearest whole number to a finite double, halves going away from zero. -/
def roundAway (x : Float) : Int :=
  let b := Binary.ofFloat x
  let n : Nat := (2 * b.num + b.den) / (2 * b.den)
  if isNegative x then -(n : Int) else n

/-- The largest whole number that a finite double reaches. -/
def floor (x : Float) : Int :=
  let b := Binary.ofFloat x
  if isNegative x then -((b.num + (b.den - 1)) / b.den : Nat) else (b.num / b.den : Nat)

/-- The smallest whole number that is not below a finite double. -/
def ceil (x : Float) : Int :=
  let b := Binary.ofFloat x
  if isNegative x then -((b.num / b.den : Nat) : Int) else ((b.num + (b.den - 1)) / b.den : Nat)

end Pascal.Decimal
