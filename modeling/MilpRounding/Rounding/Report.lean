import MilpRounding.Scalar

namespace MilpRounding

abbrev Positive := { n : Nat // 1 ≤ n }

def standardSweeps : Positive := ⟨10000, by decide⟩

structure Options (α : Type) [Scalar α] where
  maxSweeps : Positive := standardSweeps
  /-- Turn rows that point the wrong way instead of refusing them. -/
  normalize : Bool := true
  stopOnStall : Bool := true
  /-- Make the variables that became whole integral. -/
  markIntegral : Bool := false
  tol : α := Scalar.tolerance

def Options.standard {α : Type} [Scalar α] : Options α := {}

inductive Status
  | converged
  | stalled
  | sweepLimit
  deriving DecidableEq, Repr

def Status.word : Status → String
  | .converged => "converged"
  | .stalled => "stalled"
  | .sweepLimit => "sweep_limit"

structure Report (α : Type) where
  status : Status
  sweeps : Nat
  moves : Nat
  history : List Nat
  rounded : List Nat
  fractional : List Nat
  values : List α
  objective : Option α
  feasible : Bool
  deriving Repr

def Report.message {α : Type} (r : Report α) : String :=
  match r.status with
  | .converged => "No slack left to move any pending variable."
  | .stalled => "Last sweep made no moves."
  | .sweepLimit => s!"Stopped after {r.sweeps} sweeps."

end MilpRounding
