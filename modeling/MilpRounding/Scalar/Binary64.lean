import MilpRounding.Scalar

namespace MilpRounding.Binary64

/-- A finite number stands for `significand * 2 ^ exponent`, with its sign. -/
inductive Decoded
  | undefined
  | infinite (negative : Bool)
  | finite (negative : Bool) (significand : Nat) (exponent : Int)
  deriving DecidableEq, Repr

/-- The exponent field 0 holds zero and the subnormal numbers, which lack the leading bit. -/
def decode (x : Float) : Decoded :=
  let bits := x.toBits.toNat
  let negative := decide (Nat.pow 2 63 ≤ bits)
  let exponent : Nat := bits / Nat.pow 2 52 % Nat.pow 2 11
  let fraction : Nat := bits % Nat.pow 2 52
  if exponent = 2047 then
    if fraction = 0 then .infinite negative else .undefined
  else if exponent = 0 then .finite negative fraction (-1074)
  else .finite negative (Nat.pow 2 52 + fraction) ((exponent : Int) - 1075)

def isNaN (x : Float) : Bool :=
  match decode x with
  | .undefined => true
  | _ => false

def isFinite (x : Float) : Bool :=
  match decode x with
  | .finite .. => true
  | _ => false

def signed (negative : Bool) (n : Nat) : Int := if negative then -n else n

def floor (x : Float) : Int :=
  match decode x with
  | .finite negative m e =>
    if 0 ≤ e then signed negative (m * Nat.pow 2 e.toNat)
    else Int.fdiv (signed negative m) (Nat.pow 2 (-e).toNat)
  | _ => 0

def ceil (x : Float) : Int :=
  match decode x with
  | .finite negative m e =>
    if 0 ≤ e then signed negative (m * Nat.pow 2 e.toNat)
    else -Int.fdiv (-signed negative m) (Nat.pow 2 (-e).toNat)
  | _ => 0

/-- The number nearest to an integer; of two, the one with an even significand. -/
def ofInt (n : Int) : Float := .ofModel (.ofInt n)

instance : Scalar Float where
  decideLT := fun a b => inferInstanceAs (Decidable (a < b))
  decideLE := fun a b => inferInstanceAs (Decidable (a ≤ b))
  infinity := 1.0 / 0.0
  isNaN := isNaN
  isFinite := isFinite
  floor := floor
  ceil := ceil
  ofInt := ofInt

def truncate (x : Float) : Int := if x < 0 then ceil x else floor x

def truncate? (x : Float) : Except (Fault Float) Int :=
  if isNaN x then throw .notANumber
  else if isFinite x then pure (truncate x)
  else throw .infinite

end MilpRounding.Binary64
