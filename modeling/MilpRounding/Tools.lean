import MilpRounding.Problem.Assembly
import MilpRounding.Rounding.Run

namespace MilpRounding

open Scalar

structure RoundedProblem (α : Type) where
  status : Status
  sweeps : Nat
  moves : Nat
  history : List Nat
  rounded : List String
  fractional : List String
  values : Point α
  objective : Option α
  feasible : Bool
  message : String

structure SlackTable (α : Type) where
  slacks : Point α
  violated : List String

/-- An entry for a name that has one already replaces its value and keeps its place. -/
def Point.put {α : Type} (point : Point α) (name : String) (value : α) : Point α :=
  if point.any (·.1 == name) then
    point.map fun entry => if entry.1 == name then (name, value) else entry
  else point ++ [(name, value)]

def Point.ofPairs {α : Type} (pairs : List (String × α)) : Point α :=
  pairs.foldl (fun point entry => point.put entry.1 entry.2) []

variable {α : Type} [Scalar α]

namespace Problem

def named (p : Problem α) (columns : List Nat) : List String :=
  columns.filterMap (p.names[·]?)

def present (p : Problem α) (r : Report α) : RoundedProblem α where
  status := r.status
  sweeps := r.sweeps
  moves := r.moves
  history := r.history
  rounded := p.named r.rounded
  fractional := p.named r.fractional
  values := Point.ofPairs (p.names.zip r.values)
  objective := r.objective
  feasible := r.feasible
  message := r.message

def runAssembled (a : Assembly α) (options : Options α) :
    EStateM.Result (Fault α) (Scene α) (Report α) :=
  (Rounding.run options (some (a.integral.map Int.ofNat))).run ⟨a.store, a.model, #[]⟩

/-- A mistake in what was given is noted; whatever else a run fails with is not. -/
def refusalEvents (p : Problem α) (r : Refusal α) : Array (Event α) :=
  if r.category.isValueMistake then #[.problemRefused p.name r] else #[]

/-- Rounds a point of a problem. The events are those that happened on the way. -/
def roundPoint (p : Problem α) (point : Point α) (options : Options α) :
    Except (Refusal α) (RoundedProblem α) × Array (Event α) :=
  match p.assemble point with
  | .error fault =>
    (throw (.building fault), fault.events ++ p.refusalEvents (.building fault))
  | .ok a =>
    match runAssembled a options with
    | .ok report scene => (pure (p.present report), scene.events)
    | .error fault scene =>
      (throw (.running fault), scene.events ++ p.refusalEvents (.running fault))

def slackTable (p : Problem α) (point : Point α) :
    Except (Refusal α) (SlackTable α) × Array (Event α) :=
  match p.assemble point with
  | .error fault => (throw (.building fault), fault.events)
  | .ok a =>
    let names := p.constraints.map (·.name)
    let table : Except (Fault α) (SlackTable α) := do
      let slacks ← a.model.slacks a.store
      let violated ← a.model.violated tolerance a.store
      pure ⟨Point.ofPairs (names.zip slacks), violated.filterMap (names[·]?)⟩
    (table.mapError .running, #[])

end Problem

end MilpRounding
