import MilpRounding.Linear.Model

namespace MilpRounding

inductive Rejection (α : Type)
  | columnsForObjective (coefficients columns : Nat)
  | columnCount (current given : Nat)
  | columnsUnset
  | noRows
  | rowLength (row entries columns : Nat)
  | rhsLength (given rows : Nat)
  | relationCount (given rows : Nat)
  | unknownRelation (text : String)
  | unknownSense (text : String)
  | objectiveLength (coefficients columns : Nat)
  | fractional (index : Int) (value : α)
  deriving Repr

inductive Verdict (α : Type)
  | accepted
  | rejected (reason : Rejection α)
  deriving Repr

namespace Model

variable {α : Type}

def setColumns (m : Model α) (columns : List Ref) :
    Except (Rejection α) (Model α) :=
  match m.columns, m.objective with
  -- the objective, if there is one, fits the present columns
  | some current, _ =>
    if columns.length = current.length then pure { m with columns := some columns }
    else throw (.columnCount current.length columns.length)
  | none, some objective =>
    if objective.coefficients.length = columns.length then
      pure { m with columns := some columns }
    else throw (.columnsForObjective objective.coefficients.length columns.length)
  | none, none => pure { m with columns := some columns }

/-- The first row whose length is not the count of columns. -/
def badRow? (columns : Nat) (matrix : List (List α)) : Option (Nat × Nat) :=
  let i := matrix.findIdx fun row => row.length ≠ columns
  matrix[i]?.map fun row => (i, row.length)

def badSymbol? (symbols : List String) : Option String :=
  symbols.find? fun s => (Relation.ofSymbol? s).isNone

def assemble (matrix : List (List α)) (rhs : List α) (relations : List Relation) :
    List (Row α) :=
  List.zipWith (fun f b => f b)
    (List.zipWith (fun coefficients relation => Row.mk coefficients relation) matrix relations) rhs

def setRows (m : Model α) (matrix : List (List α)) (rhs : List α)
    (symbols : List String) : Except (Rejection α) (Model α) :=
  match m.columns with
  | none => throw .columnsUnset
  | some columns =>
    let count := matrix.length
    if count = 0 then throw .noRows
    else match badRow? columns.length matrix with
      | some (i, entries) => throw (.rowLength i entries columns.length)
      | none =>
        if rhs.length ≠ count then throw (.rhsLength rhs.length count)
        else if symbols.length ≠ count then throw (.relationCount symbols.length count)
        else match badSymbol? symbols with
          | some s => throw (.unknownRelation s)
          | none =>
            -- all symbols are known by now, so none is dropped
            let relations := symbols.filterMap Relation.ofSymbol?
            pure { m with rows := some (assemble matrix rhs relations) }

def setObjective (m : Model α) (sense : String) (coefficients : List α) :
    Except (Rejection α) (Model α) :=
  match Sense.ofWord? sense, m.columns with
  | none, _ => throw (.unknownSense sense)
  | some sense, none => pure { m with objective := some ⟨sense, coefficients⟩ }
  | some sense, some columns =>
    if coefficients.length = columns.length then
      pure { m with objective := some ⟨sense, coefficients⟩ }
    else throw (.objectiveLength coefficients.length columns.length)

end Model

end MilpRounding
