import MilpRounding.Sample.Generated
import MilpRounding.Sample.Small
import MilpRounding.Tools

namespace MilpRounding.Sample

def cases : List (String × Problem Float × Point Float) :=
  ("examples/small_milp.json", small, smallPoint) ::
    (List.range 3).map fun (seed : Nat) => (s!"random-{seed}", generate 8 6 seed)

def columns : String := "name,status,sweeps,moves,rounded,fractional,feasible"

def truthText (b : Bool) : String := if b then "True" else "False"

def line (name : String) (r : RoundedProblem Float) : String :=
  String.intercalate "," [name, r.status.word, toString r.sweeps, toString r.moves,
    toString r.rounded.length, toString r.fractional.length, truthText r.feasible]

def lineOf (entry : String × Problem Float × Point Float) : Option String :=
  match (entry.2.1.roundPoint entry.2.2 .standard).1 with
  | .ok r => some (line entry.1 r)
  | .error _ => none

def table : List String := columns :: cases.filterMap lineOf

end MilpRounding.Sample
