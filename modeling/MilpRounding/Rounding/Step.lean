import MilpRounding.Linear.Evaluation
import MilpRounding.Rounding.Direction

namespace MilpRounding.Tableau

open Scalar

variable {α : Type} [Scalar α]

def entry (row : Row α) (j : Nat) : α := row.coefficients.getD j 0

def leastOrZero : List α → α
  | [] => 0
  | a :: rest => minimum a rest

/-- How far column `j` can rise before a row with a positive coefficient runs out of slack; zero
without such a row. -/
def limitUp (y : Tableau α) (s : Store α) (j : Nat) : α :=
  let x := y.values s
  leastOrZero <| y.rows.filterMap fun row =>
    if 0 < entry row j then some (row.slack x / entry row j) else none

/-- How far column `j` can fall before a row with a negative coefficient runs out of slack. -/
def limitDown (y : Tableau α) (s : Store α) (j : Nat) : α :=
  let x := y.values s
  leastOrZero <| y.rows.filterMap fun row =>
    if entry row j < 0 then some (-row.slack x / entry row j) else none

def ref (y : Tableau α) (j : Nat) : Ref := y.columns.getD j 0

def variableAt (y : Tableau α) (s : Store α) (j : Nat) : Variable α := s.read (y.ref j)

def reachUp (y : Tableau α) (s : Store α) (j : Nat) : α :=
  let v := y.variableAt s j
  greater 0 (lesser (lesser (v.high - v.value) (y.limitUp s j)) (above v.value - v.value))

def reachDown (y : Tableau α) (s : Store α) (j : Nat) : α :=
  let v := y.variableAt s j
  greater 0 (lesser (lesser (v.value - v.low) (y.limitDown s j)) (v.value - underneath v.value))

end Tableau

namespace Variable

open Scalar

variable {α : Type} [Scalar α]

/-- Where a step leads. A step that reaches the next integer leads to it exactly. -/
def target (v : Variable α) (step : α) : Direction → α
  | .up =>
    if step == above v.value - v.value && decide (above v.value ≤ v.high) then above v.value
    else lesser (v.value + step) v.high
  | .down =>
    if step == v.value - underneath v.value && decide (v.low ≤ underneath v.value) then
      underneath v.value
    else greater (v.value - step) v.low

end Variable

namespace Tableau

open Scalar

variable {α : Type} [Scalar α]

def targetUp (y : Tableau α) (s : Store α) (j : Nat) : α :=
  (y.variableAt s j).target (y.reachUp s j) .up

def targetDown (y : Tableau α) (s : Store α) (j : Nat) : α :=
  (y.variableAt s j).target (y.reachDown s j) .down

def objectiveEntry (y : Tableau α) (j : Nat) : α :=
  match y.objective with
  | none => 0
  | some o => o.coefficients.getD j 0

def preference (y : Tableau α) (j : Nat) : Direction :=
  Direction.favoured (y.objective.map (·.sense)) (y.objectiveEntry j)

/-- The nearer of two targets, if it is nearer than the present value: `now`, `up` and
`down` are the distances from an integer. -/
def choose (preference : Direction) (now up down : α) : Option Direction :=
  if up == down && decide (up < now) then some preference
  else if up < down ∧ up < now then some .up
  else if down < up ∧ down < now then some .down
  else none

def decision (y : Tableau α) (s : Store α) (j : Nat) : Except (Fault α) (Option α) := do
  let now ← gap? (s.value (y.ref j))
  let up ← gap? (y.targetUp s j)
  let down ← gap? (y.targetDown s j)
  pure <| (choose (y.preference j) now up down).map fun
    | .up => y.targetUp s j
    | .down => y.targetDown s j

def roundColumn (y : Tableau α) (s : Store α) (j : Nat) : Except (Fault α) (Store α × Bool) := do
  match ← y.decision s j with
  | none => pure (s, false)
  | some t =>
    match (y.variableAt s j).withValue t with
    | .ok v => pure (s.write (y.ref j) v, true)
    | .error _ => throw (.brokenStep j t)

def totals (y : Tableau α) (s : Store α) (pending : List Nat) : α × α :=
  (pending.foldl (fun t j => t + greater 0 (y.limitUp s j)) 0,
    pending.foldl (fun t j => t + greater 0 (y.limitDown s j)) 0)

end MilpRounding.Tableau
