import MilpRounding.Relation
import MilpRounding.Scalar

namespace MilpRounding

inductive Direction
  | up
  | down
  deriving DecidableEq, Repr

namespace Direction

def word : Direction → String
  | .up => "up"
  | .down => "down"

def ofWord? (s : String) : Option Direction :=
  if s = "up" then some .up else if s = "down" then some .down else none

def ofWord {α : Type} (s : String) : Except (Fault α) Direction :=
  match ofWord? s with
  | some d => pure d
  | none => throw (.unknownTag .direction s)

end Direction

def Direction.favoured {α : Type} [Scalar α] (sense : Option Sense) (coefficient : α) :
    Direction :=
  match sense with
  | some .min => if 0 < coefficient then .down else .up
  | some .max => if coefficient < 0 then .down else .up
  | none => .up

end MilpRounding
