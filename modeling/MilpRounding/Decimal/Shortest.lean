import MilpRounding.Decimal.Digits

namespace MilpRounding.Decimal

/-- Multiples of a quarter of the last place of `m`: the interval reaches half a place up, and
half a place down, or a quarter where the next smaller number has a smaller exponent. -/
def lowEnd (m : Nat) (q : Int) : Nat :=
  if m = Nat.pow 2 52 ∧ q ≠ -1074 then 4 * m - 1 else 4 * m - 2

def highEnd (m : Nat) : Nat := 4 * m + 2

def readsBack (m : Nat) (q : Int) (c : Nat) (p : Int) : Bool :=
  let point := c * (numerator 10 p * denominator 2 (q - 2))
  let unit := numerator 2 (q - 2) * denominator 10 p
  if m % 2 = 0 then decide (lowEnd m q * unit ≤ point ∧ point ≤ highEnd m * unit)
  else decide (lowEnd m q * unit < point ∧ point < highEnd m * unit)

def below (m : Nat) (q p : Int) : Nat :=
  4 * m * (numerator 2 (q - 2) * denominator 10 p) / (numerator 10 p * denominator 2 (q - 2))

def nearer (m : Nat) (q : Int) (c : Nat) (p : Int) : Ordering :=
  let point := numerator 10 p * denominator 2 (q - 2)
  let value := 4 * m * (numerator 2 (q - 2) * denominator 10 p)
  compare (2 * value) ((2 * c + 1) * point)

/-- The nearer of the two neighbours that reads back; of two equally near ones the even. -/
def onGrid (m : Nat) (q p : Int) : Option Nat :=
  let c := below m q p
  match readsBack m q c p, readsBack m q (c + 1) p with
  | false, false => none
  | true, false => some c
  | false, true => some (c + 1)
  | true, true =>
    match nearer m q c p with
    | .lt => some c
    | .gt => some (c + 1)
    | .eq => some (if c % 2 = 0 then c else c + 1)

def maxDigits : Nat := 17

def shortest (m : Nat) (q : Int) : Decimal :=
  if m = 0 then ⟨0, 0⟩
  else
    let k := leadingOfBinary m q
    -- seventeen digits are always enough, so the default is never taken
    let found := (List.range maxDigits).findSome? fun (n : Nat) =>
      (onGrid m q (k - n)).map fun c => Decimal.mk c (k - n)
    normalize (found.getD ⟨below m q (k - 16), k - 16⟩)

end MilpRounding.Decimal
