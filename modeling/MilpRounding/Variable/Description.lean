import MilpRounding.Decimal.Layout
import MilpRounding.Variable

namespace MilpRounding

open Decimal

def Variable.description (v : Variable Float) : String :=
  s!"BoundedVariable(kind={v.kind.word}, value={text v.value}, " ++
    s!"low_bound={text v.low}, high_bound={text v.high})"

end MilpRounding
