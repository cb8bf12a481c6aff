namespace MilpRounding

inductive TagFamily
  | kind
  | relation
  | direction
  deriving DecidableEq, Repr

inductive Fault (α : Type)
  | unknownTag (family : TagFamily) (text : String)
  | crossedBounds (low high : α)
  | fractionalStart (value : α)
  | fractionalKind (value : α)
  | fractionalValue (value : α)
  | outsideBounds (value low high : α)
  | noVariables
  | noConstraints
  | noObjective
  | equalityTarget
  | position
  | indicesUnset
  | indexOutOfRange (index : Int) (count : Nat)
  | wrongPolarity
  /-- A run was started inside a run of the same engine. -/
  | reentrant
  /-- A computed target was refused by the variable it was meant for. -/
  | brokenStep (index : Int) (target : α)
  | notANumber
  | infinite
  | unknownName (name : String)
  deriving Repr

inductive Category
  | value
  | domain
  | range
  | state
  | position
  | overflow
  | key
  deriving DecidableEq, Repr

def Fault.category {α : Type} : Fault α → Category
  | .unknownTag .. | .noVariables | .noConstraints | .noObjective | .equalityTarget
  | .indicesUnset | .wrongPolarity | .notANumber => .value
  | .fractionalStart _ | .fractionalKind _ | .fractionalValue _ => .domain
  | .crossedBounds .. | .outsideBounds .. => .range
  | .reentrant | .brokenStep .. => .state
  | .position | .indexOutOfRange .. => .position
  | .infinite => .overflow
  | .unknownName _ => .key

end MilpRounding
