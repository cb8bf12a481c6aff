import MilpRounding.Scalar

namespace MilpRounding

inductive Exact
  | undefined
  | negInf
  | posInf
  | finite (q : Rat)
  deriving Repr

namespace Exact

def add : Exact → Exact → Exact
  | .finite a, .finite b => .finite (a + b)
  | .undefined, _ | _, .undefined => .undefined
  | .posInf, .negInf | .negInf, .posInf => .undefined
  | .posInf, _ | _, .posInf => .posInf
  | .negInf, _ | _, .negInf => .negInf

def neg : Exact → Exact
  | .finite a => .finite (-a)
  | .undefined => .undefined
  | .posInf => .negInf
  | .negInf => .posInf

/-- An infinity with the sign of a number, undefined for zero. -/
def unbounded (q : Rat) : Exact := if 0 < q then .posInf else if q < 0 then .negInf else .undefined

def sign : Exact → Rat
  | .finite a => if 0 < a then 1 else if a < 0 then -1 else 0
  | .posInf => 1
  | .negInf => -1
  | .undefined => 0

def mul : Exact → Exact → Exact
  | .finite a, .finite b => .finite (a * b)
  | a, b => unbounded (sign a * sign b)

def div : Exact → Exact → Exact
  | .finite a, .finite b => if b = 0 then unbounded a else .finite (a / b)
  | .finite _, .posInf | .finite _, .negInf => .finite 0
  | .posInf, .finite b => if b < 0 then .negInf else .posInf
  | .negInf, .finite b => if b < 0 then .posInf else .negInf
  | _, _ => .undefined

def less : Exact → Exact → Bool
  | .finite a, .finite b => decide (a < b)
  | .negInf, .finite _ | .negInf, .posInf | .finite _, .posInf => true
  | _, _ => false

def same : Exact → Exact → Bool
  | .finite a, .finite b => decide (a = b)
  | .negInf, .negInf | .posInf, .posInf => true
  | _, _ => false

def isNaN : Exact → Bool
  | .undefined => true
  | _ => false

def isFinite : Exact → Bool
  | .finite _ => true
  | _ => false

def floor : Exact → Int
  | .finite a => a.floor
  | _ => 0

def ceil : Exact → Int
  | .finite a => a.ceil
  | _ => 0

instance : Scalar Exact where
  add := add
  sub a b := add a (neg b)
  mul := mul
  div := div
  neg := neg
  zero := .finite 0
  lt a b := less a b = true
  le a b := (less a b || same a b) = true
  beq := same
  decideLT := fun a b => inferInstanceAs (Decidable (less a b = true))
  decideLE := fun a b => inferInstanceAs (Decidable ((less a b || same a b) = true))
  infinity := .posInf
  isNaN := isNaN
  isFinite := isFinite
  floor := floor
  ceil := ceil
  ofInt n := .finite n

end Exact

end MilpRounding
