import MilpRounding.Position
import MilpRounding.Relation
import MilpRounding.Store

namespace MilpRounding

structure Row (α : Type) where
  coefficients : List α
  relation : Relation
  rhs : α
  deriving DecidableEq, Repr

structure Objective (α : Type) where
  sense : Sense
  coefficients : List α
  deriving Repr

structure Model (α : Type) where
  columns : Option (List Ref) := none
  rows : Option (List (Row α)) := none
  objective : Option (Objective α) := none
  deriving Repr

structure Tableau (α : Type) where
  columns : List Ref
  rows : List (Row α)
  objective : Option (Objective α)
  deriving Repr

namespace Model

variable {α : Type}

def requireColumns (m : Model α) : Except (Fault α) (List Ref) :=
  match m.columns with
  | some columns => pure columns
  | none => throw .noVariables

def requireRows (m : Model α) : Except (Fault α) (List (Row α)) :=
  match m.rows with
  | some rows => pure rows
  | none => throw .noConstraints

def requireObjective (m : Model α) : Except (Fault α) (Objective α) :=
  match m.objective with
  | some objective => pure objective
  | none => throw .noObjective

/-- Missing rows are reported before missing columns. -/
def requireTableau (m : Model α) : Except (Fault α) (Tableau α) := do
  let rows ← m.requireRows
  let columns ← m.requireColumns
  pure ⟨columns, rows, m.objective⟩

def rowCount (m : Model α) : Nat := (m.rows.getD []).length

def sense (m : Model α) : Option Sense := m.objective.map (·.sense)

end Model

end MilpRounding
