import MilpRounding.Linear.Reason

namespace MilpRounding

open Decimal

def rangeText (low high : Float) : String := s!"[{text low}, {text high}]"

def Fault.message? : Fault Float → Option String
  | .unknownTag family text => some (unknownTagText family text)
  | .crossedBounds low high =>
    some s!"Inconsistent bounds (low {text low} > high {text high})."
  | .fractionalStart value => some s!"Variable is integral but its value {text value} is not."
  | .fractionalKind value => some s!"Cannot make variable integral: value {text value} is not."
  | .fractionalValue value =>
    some s!"Variable is integral but the new value {text value} is not."
  | .outsideBounds value low high =>
    some s!"Value {text value} outside bounds {rangeText low high}."
  | .noVariables => some "Model has no variables."
  | .noConstraints => some "Model has no constraints."
  | .noObjective => some "Model has no objective."
  | .equalityTarget => some "Cannot flip constraints to '==' polarity."
  | .indicesUnset => some "Call set_integer_indices() before apply()."
  | .indexOutOfRange index count =>
    some s!"Variable index {index} out of range for {count} variables."
  | .wrongPolarity =>
    some ("Constraints must be in '<', '<=' or '==' form; " ++
      "enable normalize or call flip_to().")
  | .reentrant => some "ZiRound.apply() is not re-entrant."
  | .brokenStep index target =>
    some s!"Rounding step for variable {index} to {text target} broke its invariants."
  | .position | .notANumber | .infinite | .unknownName _ => none

end MilpRounding
