import MilpRounding.Linear.Model

namespace MilpRounding

open Scalar

variable {α : Type} [Scalar α]

namespace Row

def left (r : Row α) (x : List α) : α := dot r.coefficients x

def slack (r : Row α) (x : List α) : α :=
  if r.relation = .eq then 0
  else if r.relation.isBelow then r.rhs - r.left x
  else r.left x - r.rhs

/-- A strict inequality tolerates nothing at slack zero. -/
def isViolated (tol : α) (x : List α) (r : Row α) : Bool :=
  if r.relation = .eq then decide (tol < magnitude (r.left x - r.rhs))
  else (r.relation.isStrict && decide (r.slack x ≤ 0)) || decide (r.slack x < -tol)

end Row

def valuesAt (columns : List Ref) (s : Store α) : List α := columns.map s.value

def violatedRows (tol : α) (rows : List (Row α)) (x : List α) : List Nat :=
  (List.range rows.length).filter fun i => rows[i]?.any (Row.isViolated tol x)

namespace Tableau

def values (y : Tableau α) (s : Store α) : List α := valuesAt y.columns s

def slacks (y : Tableau α) (s : Store α) : List α := y.rows.map (·.slack (y.values s))

def violated (y : Tableau α) (tol : α) (s : Store α) : List Nat :=
  violatedRows tol y.rows (y.values s)

def isFeasible (y : Tableau α) (tol : α) (s : Store α) : Bool := (y.violated tol s).isEmpty

def objectiveValue (y : Tableau α) (s : Store α) : Option α :=
  y.objective.map fun o => dot o.coefficients (y.values s)

end Tableau

namespace Model

def values (m : Model α) (s : Store α) : Except (Fault α) (List α) :=
  m.requireColumns.map (valuesAt · s)

/-- The slack of an equation does not depend on the values. -/
def slack (m : Model α) (s : Store α) (i : Int) : Except (Fault α) α := do
  let row ← pick (← m.requireRows) i
  if row.relation = .eq then pure 0 else (m.values s).map row.slack

def slacks (m : Model α) (s : Store α) : Except (Fault α) (List α) :=
  match m.rows with
  | none => pure []
  | some _ => m.requireTableau.map (·.slacks s)

def objectiveValue (m : Model α) (s : Store α) : Except (Fault α) α := do
  let objective ← m.requireObjective
  let x ← m.values s
  pure (dot objective.coefficients x)

def violated (m : Model α) (tol : α) (s : Store α) : Except (Fault α) (List Nat) :=
  m.requireTableau.map (·.violated tol s)

def isFeasible (m : Model α) (tol : α) (s : Store α) : Except (Fault α) Bool :=
  (m.violated tol s).map (·.isEmpty)

def variableAt (m : Model α) (s : Store α) (j : Int) :
    Except (Fault α) (Variable α) := do
  pure (s.read (← pick (← m.requireColumns) j))

def coefficientAt (m : Model α) (i j : Int) : Except (Fault α) α := do
  let row ← pick (← m.requireRows) i
  pick row.coefficients j

def rhs (m : Model α) (i : Int) : Except (Fault α) α := do
  pure (← pick (← m.requireRows) i).rhs

def relation (m : Model α) (i : Int) : Except (Fault α) Relation := do
  pure (← pick (← m.requireRows) i).relation

/-- Without an objective every coefficient is zero. -/
def costAt (m : Model α) (j : Int) : Except (Fault α) α :=
  match m.objective with
  | none => pure 0
  | some objective => pick objective.coefficients j

end Model

end MilpRounding
