import MilpRounding.Fault

namespace MilpRounding

def resolve? (count : Nat) (j : Int) : Option Nat :=
  if 0 ≤ j ∧ j < count then some j.toNat
  else if j < 0 ∧ -(count : Int) ≤ j then some (j + count).toNat
  else none

def resolve {α : Type} (count : Nat) (j : Int) : Except (Fault α) Nat :=
  match resolve? count j with
  | some k => pure k
  | none => throw .position

theorem lt_of_resolve? {count : Nat} {j : Int} {k : Nat} (h : resolve? count j = some k) :
    k < count := by
  grind [resolve?]

def pick {α β : Type} (xs : List β) (j : Int) : Except (Fault α) β :=
  match (resolve? xs.length j).bind (xs[·]?) with
  | some x => pure x
  | none => throw .position

end MilpRounding
