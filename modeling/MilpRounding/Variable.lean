import MilpRounding.Scalar

namespace MilpRounding

inductive Kind
  | integral
  | continuous
  deriving DecidableEq, Repr

namespace Kind

def word : Kind → String
  | .integral => "integral"
  | .continuous => "continuous"

def ofWord? (s : String) : Option Kind :=
  if s = "integral" then some .integral
  else if s = "continuous" then some .continuous
  else none

def ofWord {α : Type} (s : String) : Except (Fault α) Kind :=
  match ofWord? s with
  | some kind => pure kind
  | none => throw (.unknownTag .kind s)

end Kind

structure Variable (α : Type) where
  kind : Kind
  value : α
  low : α
  high : α
  deriving Repr

namespace Variable

open Scalar

variable {α : Type} [Scalar α]

def admits (low high value : α) : Bool :=
  isFinite value && !decide (value < low) && !decide (high < value)

def make (kind : Kind) (value low high : α) : Except (Fault α) (Variable α) :=
  if high < low then throw (.crossedBounds low high)
  else if kind = .integral ∧ isWhole value = false then throw (.fractionalStart value)
  else if admits low high value then pure ⟨kind, value, low, high⟩
  else throw (.outsideBounds value low high)

def gap (v : Variable α) : α := Scalar.gap v.value

def isIntegral (v : Variable α) : Bool := isWhole v.value

def withKind (v : Variable α) (kind : Kind) : Except (Fault α) (Variable α) :=
  if kind = .integral ∧ v.isIntegral = false then throw (.fractionalKind v.value)
  else pure { v with kind := kind }

def withValue (v : Variable α) (value : α) : Except (Fault α) (Variable α) :=
  if v.kind = .integral ∧ isWhole value = false then throw (.fractionalValue value)
  else if admits v.low v.high value then pure { v with value := value }
  else throw (.outsideBounds value v.low v.high)

end Variable

end MilpRounding
