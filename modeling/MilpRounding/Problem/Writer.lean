import MilpRounding.Document
import MilpRounding.Problem
import MilpRounding.Rounding.Report
import MilpRounding.Scalar.Binary64

namespace MilpRounding

def Declaration.document (d : Declaration Float) : Document :=
  let bound (b : Option Float) : Document := match b with
    | some x => .real x
    | none => .nothing
  .object [("name", .text d.name), ("lb", bound d.low), ("ub", bound d.high),
    ("is_integer", .boolean d.isIntegral)]

def Term.document (t : Term Float) : Document :=
  .object [("var", .text t.variableName), ("coef", .real t.coefficient)]

def Expression.document (e : Expression Float) : Document :=
  .object [("terms", .list (e.terms.map Term.document)), ("constant", .real e.constant)]

def Constraint.document (c : Constraint Float) : Document :=
  .object [("name", .text c.name), ("lhs", c.left.document), ("cmp", .text c.relation.symbol),
    ("rhs", .real c.rhs)]

def Problem.document (p : Problem Float) : Document :=
  .object [("name", .text p.name), ("sense", .text p.sense.word),
    ("objective", p.objective.document),
    ("variables", .list (p.declarations.map Declaration.document)),
    ("constraints", .list (p.constraints.map Constraint.document))]

def Options.document (o : Options Float) : Document :=
  .object [("max_sweeps", .integer o.maxSweeps.1), ("normalize", .boolean o.normalize),
    ("stop_on_stall", .boolean o.stopOnStall), ("impose_integral", .boolean o.markIntegral),
    ("tol", .real o.tol)]

end MilpRounding
