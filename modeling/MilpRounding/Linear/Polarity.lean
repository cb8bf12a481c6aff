import MilpRounding.Linear.Model

namespace MilpRounding

open Scalar

variable {α : Type} [Scalar α]

namespace Row

def negated (r : Row α) : Row α :=
  ⟨r.coefficients.map (-·), r.relation.converse, -r.rhs⟩

def toward (target : Relation) (r : Row α) : Row α :=
  if r.relation.opposes target then r.negated else r

end Row

def opposing (target : Relation) (rows : List (Row α)) : List Nat :=
  (List.range rows.length).filter fun i =>
    rows[i]?.any fun r => r.relation.opposes target

def Model.orient (m : Model α) (target : Relation) :
    Except (Fault α) (Model α × List Nat) :=
  if target = .eq then throw .equalityTarget
  else do
    let rows ← m.requireRows
    pure ({ m with rows := some (rows.map (Row.toward target)) }, opposing target rows)

end MilpRounding
