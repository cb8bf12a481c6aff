import MilpRounding.Fault

namespace MilpRounding

class Scalar (α : Type) extends Add α, Sub α, Mul α, Div α, Neg α, Zero α, LT α, LE α, BEq α where
  decideLT : DecidableLT α
  decideLE : DecidableLE α
  infinity : α
  isNaN : α → Bool
  isFinite : α → Bool
  /-- The greatest integer that is not above a finite number; of no meaning for the others. -/
  floor : α → Int
  ceil : α → Int
  ofInt : Int → α

namespace Scalar

attribute [reducible, instance] Scalar.decideLT Scalar.decideLE

variable {α : Type} [Scalar α]

/-- The first of two numbers unless the second is strictly less: an undefined first
number stays, an undefined second one is passed over. -/
def lesser (a b : α) : α := if b < a then b else a

def greater (a b : α) : α := if a < b then b else a

/-- The first number stays unless it is negative, so a zero keeps its sign bit cleared. -/
def magnitude (a : α) : α := if a < 0 then -a else if a == 0 then 0 else a

/-- One step of a minimum over a list: undefined numbers win, and of two equal numbers the later. -/
def least (a b : α) : α := if a < b || isNaN a then a else b

def minimum (a : α) (rest : List α) : α := rest.foldl least a

/-- The value of a linear form: products are added from left to right, starting at zero. -/
def dot (coefficients values : List α) : α :=
  (List.zipWith (· * ·) coefficients values).foldl (· + ·) 0

def underneath (a : α) : α := ofInt (floor a)

def above (a : α) : α := ofInt (ceil a)

def gap (a : α) : α := lesser (a - underneath a) (above a - a)

def gap? (a : α) : Except (Fault α) α :=
  if isNaN a then throw .notANumber
  else if isFinite a then pure (gap a)
  else throw .infinite

def isWhole (a : α) : Bool := isFinite a && gap a == 0

/-- One part in 10⁹: how far a row may be violated by default. -/
def tolerance : α := ofInt 1 / ofInt 1000000000

end Scalar

end MilpRounding
