namespace MilpRounding

structure Decimal where
  coefficient : Nat
  scale : Int
  deriving DecidableEq, Repr

namespace Decimal

def digitCount (n : Nat) : Nat := (Nat.toDigits 10 n).length

def leading (d : Decimal) : Int := d.scale + digitCount d.coefficient - 1

def trim : Nat → Decimal → Decimal
  | 0, d => d
  | fuel + 1, d =>
    if d.coefficient % 10 = 0 then trim fuel ⟨d.coefficient / 10, d.scale + 1⟩ else d

def normalize (d : Decimal) : Decimal :=
  if d.coefficient = 0 then ⟨0, 0⟩ else trim (digitCount d.coefficient) d

def numerator (base : Nat) (e : Int) : Nat := Nat.pow base e.toNat

def denominator (base : Nat) (e : Int) : Nat := Nat.pow base (-e).toNat

/-- The exponent of the leading decimal digit of `m * 2 ^ q`, for a positive `m`: a negative
power of two is a power of five over a power of ten. -/
def leadingOfBinary (m : Nat) (q : Int) : Int :=
  if 0 ≤ q then (digitCount (m * Nat.pow 2 q.toNat) : Int) - 1
  else digitCount (m * Nat.pow 5 (-q).toNat) - 1 + q

end Decimal

end MilpRounding
