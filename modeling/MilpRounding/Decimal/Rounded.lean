import MilpRounding.Decimal.Digits

namespace MilpRounding.Decimal

/-- The nearest integer to a quotient; halves go to the even neighbour. -/
def nearestQuotient (num den : Nat) : Nat :=
  let c := num / den
  let rest := num % den
  if 2 * rest < den then c
  else if den < 2 * rest then c + 1
  else if c % 2 = 0 then c else c + 1

/-- Rounding up may reach the next power of ten, which `normalize` writes with fewer digits. -/
def rounded (digits m : Nat) (q : Int) : Decimal :=
  if m = 0 then ⟨0, 0⟩
  else
    let p := leadingOfBinary m q - digits + 1
    normalize ⟨nearestQuotient (m * (numerator 2 q * denominator 10 p))
      (numerator 10 p * denominator 2 q), p⟩

end MilpRounding.Decimal
