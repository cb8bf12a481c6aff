import MilpRounding.Problem
import MilpRounding.Draw.Source

namespace MilpRounding.Sample

open Scalar Draw

variable {α σ : Type} [Scalar α]

def variableName (i : Nat) : String := s!"x{i}"

def constraintName (i : Nat) : String := s!"c{i}"

def declaration (i : Nat) : Declaration α := ⟨variableName i, some 0, some (ofInt 10), true⟩

def drawMany (source : Source α σ) (low high : α) : Nat → StateM σ (List α)
  | 0 => pure []
  | left + 1 => do
    let a ← source.uniform low high
    pure (a :: (← drawMany source low high left))

def termsOf (coefficients : List α) : List (Term α) :=
  coefficients.zipIdx.map fun (a, i) => ⟨variableName i, a⟩

def drawConstraint (source : Source α σ) (values : List α) (i : Nat) :
    StateM σ (Constraint α) := do
  let coefficients ← drawMany source (-ofInt 5) (ofInt 5) values.length
  let value := dot coefficients values
  let side ← source.unit
  let offset ← source.uniform 0 (ofInt 3)
  let left : Expression α := ⟨termsOf coefficients, 0⟩
  if side < ofInt 1 / ofInt 2 then pure ⟨constraintName i, left, .le, value + offset⟩
  else pure ⟨constraintName i, left, .ge, value - offset⟩

def drawConstraints (source : Source α σ) (values : List α) :
    List Nat → StateM σ (List (Constraint α))
  | [] => pure []
  | i :: rest => do
    let c ← drawConstraint source values i
    pure (c :: (← drawConstraints source values rest))

def drawProblem (source : Source α σ) (variableCount constraintCount : Nat) :
    StateM σ (Problem α × Point α) := do
  let values ← drawMany source 0 (ofInt 10) variableCount
  let constraints ← drawConstraints source values (List.range constraintCount)
  let costs ← drawMany source (-ofInt 4) (ofInt 4) variableCount
  let maximise ← source.coin
  let problem : Problem α := {
    name := "random-milp"
    sense := if maximise then .max else .min
    objective := ⟨termsOf costs, 0⟩
    declarations := (List.range variableCount).map declaration
    constraints }
  pure (problem, (List.range variableCount).map variableName |>.zip values)

/-- A count below zero means none. -/
def generate (variableCount constraintCount seed : Int) : Problem Float × Point Float :=
  ((drawProblem twister variableCount.toNat constraintCount.toNat).run (Twister.ofSeed seed)).1

end MilpRounding.Sample
