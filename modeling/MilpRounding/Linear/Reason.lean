import MilpRounding.Decimal.Layout
import MilpRounding.Linear.Update
import MilpRounding.Text.Quoted

namespace MilpRounding

def TagFamily.name : TagFamily → String
  | .kind => "VarKind"
  | .relation => "Relation"
  | .direction => "Direction"

def unknownTagText (family : TagFamily) (text : String) : String :=
  s!"{Text.quoted text} is not a valid {family.name}"

def Rejection.reason : Rejection Float → String
  | .columnsForObjective coefficients columns =>
    s!"Objective has {coefficients} coefficients but {columns} variables were given."
  | .columnCount current given => s!"Model has {current} variables; replacement has {given}."
  | .columnsUnset => "Variables must be set before constraints."
  | .noRows => "Constraint matrix has no rows."
  | .rowLength row entries columns => s!"Row {row} has {entries} entries; expected {columns}."
  | .rhsLength given rows => s!"Right-hand side has {given} entries; expected {rows}."
  | .relationCount given rows => s!"Got {given} relation tags; expected {rows}."
  | .unknownRelation text => unknownTagText .relation text
  | .unknownSense text => s!"Unknown objective sense '{text}'."
  | .objectiveLength coefficients columns =>
    s!"Objective has {coefficients} coefficients; model has {columns} variables."
  | .fractional index value => s!"Variable {index} has non-integral value {Decimal.text value}."

end MilpRounding
