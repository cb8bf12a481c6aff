import MilpRounding.Fault.Message
import MilpRounding.Problem.Refusal

namespace MilpRounding

open Decimal

def BuildFault.message? : BuildFault Float → Option String
  | .duplicateName name => some s!"Duplicate variable name '{name}'."
  | .noValue name => some s!"Relaxation solution has no value for variable '{name}'."
  | .crossedBounds name low high =>
    some s!"Variable {name} has inconsistent bounds (lb {text low} > ub {text high})."
  | .outsideBounds name value low high =>
    some s!"Relaxation value {text value} of '{name}' lies outside {rangeText low high}."
  | .variableFault fault => fault.message?
  | .unknownInObjective name => some s!"Objective references unknown variable '{name}'."
  | .unknownInConstraint constraint name =>
    some s!"Constraint '{constraint}' references unknown variable '{name}'."
  | .rejected problem reason => some s!"Model '{problem}' rejected: {reason.reason}"

def Refusal.message? : Refusal Float → Option String
  | .building fault => fault.message?
  | .running fault => fault.message?

def Refusal.message (r : Refusal Float) : String := r.message?.getD ""

end MilpRounding
