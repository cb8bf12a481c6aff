import MilpRounding.Linear.Update

namespace MilpRounding

open Scalar

variable {α : Type} [Scalar α]

def Store.relax (s : Store α) (r : Ref) : Store α :=
  s.write r { s.read r with kind := .continuous }

def Store.makeIntegral (s : Store α) (r : Ref) : Store α :=
  s.write r { s.read r with kind := .integral }

def relaxColumns (columns : List Ref) (s : Store α) : Store α := columns.foldl Store.relax s

/-- The store after the conversions, and what ended them. -/
def convertColumns (columns : List Ref) (s : Store α) :
    List Int → Store α × Except (Fault α) (Verdict α)
  | [] => (s, pure .accepted)
  | j :: rest =>
    match pick columns j with
    | .error fault => (s, throw fault)
    | .ok r =>
      if (s.read r).isIntegral then convertColumns columns (s.makeIntegral r) rest
      else (s, pure (.rejected (.fractional j (s.value r))))

end MilpRounding
