import MilpRounding.Relation
import MilpRounding.Scalar

namespace MilpRounding

structure Declaration (α : Type) where
  name : String
  low : Option α := none
  high : Option α := none
  isIntegral : Bool := false
  deriving Repr

structure Term (α : Type) where
  variableName : String
  coefficient : α
  deriving Repr

structure Expression (α : Type) where
  terms : List (Term α)
  constant : α
  deriving Repr

structure Constraint (α : Type) where
  name : String
  left : Expression α
  relation : Relation
  rhs : α
  deriving Repr

structure Problem (α : Type) where
  name : String := "problem"
  sense : Sense
  objective : Expression α
  declarations : List (Declaration α)
  constraints : List (Constraint α)
  deriving Repr

abbrev Point (α : Type) := List (String × α)

variable {α : Type} [Scalar α]

def Expression.eval (e : Expression α) (value : String → α) : α :=
  (e.terms.map fun t => t.coefficient * value t.variableName).foldl (· + ·) 0 + e.constant

def Declaration.lowOrFree (d : Declaration α) : α := d.low.getD (-Scalar.infinity)

def Declaration.highOrFree (d : Declaration α) : α := d.high.getD Scalar.infinity

end MilpRounding
