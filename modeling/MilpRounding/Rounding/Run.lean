import MilpRounding.Rounding.Step
import MilpRounding.Scene

namespace MilpRounding

open Scalar

structure Progress where
  sweeps : Nat := 0
  history : Array Nat := #[]
  pending : List Nat

namespace Rounding

variable {α : Type} [Scalar α]

def roundColumn (y : Tableau α) (j : Nat) : Action α Bool := do
  let (store, moved) ← Action.ofExcept (y.roundColumn (← get).store j)
  modify fun c => { c with store := store }
  pure moved

def sweep (y : Tableau α) : List Nat → Action α (List Nat × Nat)
  | [] => pure ([], 0)
  | j :: rest => do
    let moved ← roundColumn y j
    let whole := (y.variableAt (← get).store j).isIntegral
    let (pending, moves) ← sweep y rest
    -- a column that turned whole is not looked at in later sweeps
    pure (if whole then pending else j :: pending, if moved then moves + 1 else moves)

/-- Why to stop after a sweep, if at all. With no slack left the run has converged once a whole
sweep has left the pending columns in place. -/
def stopReason? (stopOnStall : Bool) (moves : Nat) (pending : List Nat) (up down : α) :
    Option Status :=
  if up == 0 && down == 0 && (moves == 0 || pending.isEmpty) then some .converged
  else if moves == 0 && stopOnStall then some .stalled
  else none

def sweeping (y : Tableau α) (stopOnStall : Bool) :
    Nat → Progress → Action α (Status × Progress)
  | 0, p => pure (.sweepLimit, p)
  | left + 1, p => do
    let (pending, moves) ← sweep y p.pending
    let p : Progress := ⟨p.sweeps + 1, p.history.push moves, pending⟩
    let (up, down) := y.totals (← get).store pending
    Action.note (.sweepDone p.sweeps moves pending.length up down)
    match stopReason? stopOnStall moves pending up down with
    | some status => pure (status, p)
    | none => sweeping y stopOnStall left p

def outOfRange? (count : Nat) (indices : List Int) : Option Int :=
  indices.find? fun j => !decide (0 ≤ j ∧ j < count)

/-- The columns that a run is about. Rows are brought to one polarity last, after all checks
but that there are any. -/
def prepare (options : Options α) (indices : Option (List Int)) : Action α (List Nat) := do
  match indices with
  | none => throw .indicesUnset
  | some indices =>
    let columns ← Action.ofExcept (← get).model.requireColumns
    match outOfRange? columns.length indices with
    | some j => throw (.indexOutOfRange j columns.length)
    | none =>
      if options.normalize then
        let _ ← Action.orient .le
      else
        let rows ← Action.ofExcept (← get).model.requireRows
        if rows.any (·.relation.isAbove) then throw .wrongPolarity
      pure (indices.map Int.toNat)

def conclude (options : Options α) (y : Tableau α) (columns : List Nat) (status : Status)
    (p : Progress) : Action α (Report α) := do
  let rounded := columns.filter fun j => !p.pending.contains j
  -- all of these hold whole values, so no conversion is rejected
  if options.markIntegral && !rounded.isEmpty then
    let _ ← Action.convert (rounded.map Int.ofNat)
  Action.note (.runDone status p.sweeps rounded.length columns.length)
  let store := (← get).store
  pure {
    status
    sweeps := p.sweeps
    moves := p.history.foldl (· + ·) 0
    history := p.history.toList
    rounded
    fractional := p.pending
    values := y.values store
    objective := y.objectiveValue store
    feasible := y.isFeasible options.tol store }

def run (options : Options α) (indices : Option (List Int)) : Action α (Report α) := do
  let columns ← prepare options indices
  let y ← Action.ofExcept (← get).model.requireTableau
  let (status, p) ← sweeping y options.stopOnStall options.maxSweeps.1 { pending := columns }
  conclude options y columns status p

/-- Repeated indices count once, at their first place. -/
def distinct (indices : List Int) : List Int := indices.eraseDups

end Rounding

end MilpRounding
