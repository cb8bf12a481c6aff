import MilpRounding.Fault

namespace MilpRounding

inductive Relation
  | lt
  | le
  | eq
  | ge
  | gt
  deriving DecidableEq, Repr

namespace Relation

def symbol : Relation → String
  | .lt => "<"
  | .le => "<="
  | .eq => "=="
  | .ge => ">="
  | .gt => ">"

def ofSymbol? (s : String) : Option Relation :=
  if s = "<" then some .lt
  else if s = "<=" then some .le
  else if s = "==" then some .eq
  else if s = ">=" then some .ge
  else if s = ">" then some .gt
  else none

@[simp] theorem ofSymbol?_symbol (r : Relation) : ofSymbol? r.symbol = some r := by
  cases r <;> simp [symbol, ofSymbol?]

def ofSymbol {α : Type} (s : String) : Except (Fault α) Relation :=
  match ofSymbol? s with
  | some r => pure r
  | none => throw (.unknownTag .relation s)

def isBelow : Relation → Bool
  | .lt | .le => true
  | _ => false

def isAbove : Relation → Bool
  | .gt | .ge => true
  | _ => false

def isStrict : Relation → Bool
  | .lt | .gt => true
  | _ => false

def converse : Relation → Relation
  | .lt => .gt
  | .le => .ge
  | .eq => .eq
  | .ge => .le
  | .gt => .lt

@[simp] theorem converse_converse (r : Relation) : r.converse.converse = r := by cases r <;> rfl

@[simp] theorem isStrict_converse (r : Relation) : r.converse.isStrict = r.isStrict := by
  cases r <;> rfl

/-- An inequality that points the other way than the target. Equations oppose nothing. -/
def opposes (r target : Relation) : Bool := r ≠ .eq && r.isBelow != target.isBelow

end Relation

inductive Sense
  | min
  | max
  deriving DecidableEq, Repr

namespace Sense

def word : Sense → String
  | .min => "min"
  | .max => "max"

def ofWord? (s : String) : Option Sense :=
  if s = "min" then some .min else if s = "max" then some .max else none

@[simp] theorem ofWord?_word (s : Sense) : ofWord? s.word = some s := by
  cases s <;> simp [word, ofWord?]

end Sense

end MilpRounding
