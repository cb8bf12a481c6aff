import MilpRounding.Problem
import MilpRounding.Scalar.Binary64

namespace MilpRounding.Sample

def pair (a b : Float) : Expression Float := ⟨[⟨"x1", a⟩, ⟨"x2", b⟩], 0⟩

def small : Problem Float where
  name := "small-milp"
  sense := .min
  objective := pair 2 (-1)
  declarations := [⟨"x1", some 0, some 100, true⟩, ⟨"x2", some 0, some 100, true⟩]
  constraints := [⟨"cover", pair 1 2, .ge, 7⟩, ⟨"balance", pair 2 (-1), .ge, -6⟩,
    ⟨"demand", pair (-3) 2, .ge, 8⟩]

def smallPoint : Point Float := [("x1", 1.5), ("x2", 8.3)]

def find? (fileName : String) : Option (Problem Float) :=
  if fileName = "small_milp.json" then some small else none

end MilpRounding.Sample
