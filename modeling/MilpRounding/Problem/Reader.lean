import MilpRounding.Document.Atom
import MilpRounding.Problem
import MilpRounding.Rounding.Report

namespace MilpRounding

open Document Checked

def Declaration.read : Document → Checked (Declaration Float) :=
  objectOf fun fields =>
    apply (apply (apply (.map Declaration.mk (required "name" asText fields))
      (optional "lb" none (nullable asReal) fields))
      (optional "ub" none (nullable asReal) fields))
      (optional "is_integer" false asTruth fields)

def Term.read : Document → Checked (Term Float) :=
  objectOf fun fields =>
    apply (.map Term.mk (required "var" asText fields)) (required "coef" asReal fields)

def Expression.read : Document → Checked (Expression Float) :=
  objectOf fun fields =>
    apply (.map Expression.mk (optional "terms" [] (listOf Term.read) fields))
      (optional "constant" 0 asReal fields)

def Constraint.read : Document → Checked (Constraint Float) :=
  objectOf fun fields =>
    apply (apply (apply (.map Constraint.mk (required "name" asText fields))
      (required "lhs" Expression.read fields))
      (required "cmp" (asWord Relation.ofSymbol?) fields))
      (required "rhs" asReal fields)

def Problem.read : Document → Checked (Problem Float) :=
  objectOf fun fields =>
    apply (apply (apply (apply (.map Problem.mk (optional "name" "problem" asText fields))
      (required "sense" (asWord Sense.ofWord?) fields))
      (required "objective" Expression.read fields))
      (required "variables" (listOf Declaration.read) fields))
      (required "constraints" (listOf Constraint.read) fields)

def Options.read : Document → Checked (Options Float) :=
  objectOf fun fields =>
    apply (apply (apply (apply
      (.map Options.mk (optional "max_sweeps" standardSweeps asPositive fields))
      (optional "normalize" true asTruth fields))
      (optional "stop_on_stall" true asTruth fields))
      (optional "impose_integral" false asTruth fields))
      (optional "tol" Scalar.tolerance asReal fields)

end MilpRounding
