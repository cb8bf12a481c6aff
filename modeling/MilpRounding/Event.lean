import MilpRounding.Problem.Refusal
import MilpRounding.Rounding.Report

namespace MilpRounding

inductive Event (α : Type)
  | rowsFlipped (target : Relation) (rows : List Nat)
  | updateRejected (reason : Rejection α)
  | sweepDone (sweep moves pending : Nat) (up down : α)
  | runDone (status : Status) (sweeps rounded count : Nat)
  | problemRefused (name : String) (refusal : Refusal α)
  deriving Repr

inductive Severity
  | detail
  | notice
  deriving DecidableEq, Repr

inductive Origin
  | model
  | engine
  | tools
  deriving DecidableEq, Repr

namespace Event

variable {α : Type}

def severity : Event α → Severity
  | .runDone .. => .notice
  | _ => .detail

def origin : Event α → Origin
  | .rowsFlipped .. | .updateRejected _ => .model
  | .sweepDone .. | .runDone .. => .engine
  | .problemRefused .. => .tools

end Event

end MilpRounding
