import MilpRounding.Linear.Update

namespace MilpRounding

inductive BuildFault (α : Type)
  | duplicateName (name : String)
  | noValue (name : String)
  | crossedBounds (name : String) (low high : α)
  | outsideBounds (name : String) (value low high : α)
  | variableFault (fault : Fault α)
  | unknownInObjective (name : String)
  | unknownInConstraint (constraint name : String)
  | rejected (problem : String) (reason : Rejection α)
  deriving Repr

def BuildFault.category {α : Type} : BuildFault α → Category
  | .variableFault fault => fault.category
  | _ => .value

inductive Refusal (α : Type)
  | building (fault : BuildFault α)
  | running (fault : Fault α)
  deriving Repr

def Refusal.category {α : Type} : Refusal α → Category
  | .building fault => fault.category
  | .running fault => fault.category

def Category.isValueMistake : Category → Bool
  | .value | .domain | .range => true
  | _ => false

end MilpRounding
