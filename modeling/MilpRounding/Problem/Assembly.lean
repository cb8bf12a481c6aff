import MilpRounding.Event
import MilpRounding.Problem

namespace MilpRounding

open Scalar

structure Assembly (α : Type) where
  store : Store α
  model : Model α
  integral : List Nat

variable {α : Type} [Scalar α]

def Declaration.instantiate (d : Declaration α) (point : Point α) :
    Except (BuildFault α) (Variable α) := do
  match point.lookup d.name with
  | none => throw (.noValue d.name)
  | some value =>
    if d.highOrFree < d.lowOrFree then throw (.crossedBounds d.name d.lowOrFree d.highOrFree)
    else if value < d.lowOrFree ∨ d.highOrFree < value then
      throw (.outsideBounds d.name value d.lowOrFree d.highOrFree)
    else match Variable.make .continuous value d.lowOrFree d.highOrFree with
      | .ok v => pure v
      | .error fault => throw (.variableFault fault)

/-- The variables of some declarations, where `seen` holds the names before them. -/
def instantiateAll (point : Point α) :
    List String → List (Declaration α) → Except (BuildFault α) (List (Variable α))
  | _, [] => pure []
  | seen, d :: rest => do
    if d.name ∈ seen then throw (.duplicateName d.name)
    let v ← d.instantiate point
    pure (v :: (← instantiateAll point (d.name :: seen) rest))

def addTerms (names : List String) (unknown : String → BuildFault α) :
    List (Term α) → List α → Except (BuildFault α) (List α)
  | [], row => pure row
  | t :: rest, row =>
    match names.idxOf? t.variableName with
    | none => throw (unknown t.variableName)
    | some j => addTerms names unknown rest (row.modify j (· + t.coefficient))

def denseRow (names : List String) (unknown : String → BuildFault α) (terms : List (Term α)) :
    Except (BuildFault α) (List α) :=
  addTerms names unknown terms (List.replicate names.length 0)

namespace Problem

def names (p : Problem α) : List String := p.declarations.map (·.name)

def integralColumns (p : Problem α) : List Nat :=
  (List.range p.declarations.length).filter fun j => p.declarations[j]?.any (·.isIntegral)

def denseConstraints (p : Problem α) : Except (BuildFault α) (List (List α)) :=
  p.constraints.mapM fun c => denseRow p.names (.unknownInConstraint c.name) c.left.terms

def rightSides (p : Problem α) : List α := p.constraints.map fun c => c.rhs - c.left.constant

def toModel (p : Problem α) (objective : List α) (matrix : List (List α)) :
    Except (Rejection α) (Model α) := do
  let m ← Model.setColumns {} (List.range p.declarations.length)
  let m ← m.setObjective p.sense.word objective
  m.setRows matrix p.rightSides (p.constraints.map (·.relation.symbol))

def assemble (p : Problem α) (point : Point α) : Except (BuildFault α) (Assembly α) := do
  let cells ← instantiateAll point [] p.declarations
  let objective ← denseRow p.names .unknownInObjective p.objective.terms
  let matrix ← p.denseConstraints
  match p.toModel objective matrix with
  | .error reason => throw (.rejected p.name reason)
  | .ok model => pure ⟨⟨cells.toArray⟩, model, p.integralColumns⟩

end Problem

def BuildFault.events : BuildFault α → Array (Event α)
  | .rejected _ reason => #[.updateRejected reason]
  | _ => #[]

end MilpRounding
