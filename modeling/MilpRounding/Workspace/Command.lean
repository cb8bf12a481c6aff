import MilpRounding.Workspace

namespace MilpRounding

inductive Query
  | slack (i : Int)
  | slacks
  | objectiveValue
  | cell (j : Int)
  | value (j : Int)
  | values
  | coefficientAt (i j : Int)
  | rhs (i : Int)
  | relation (i : Int)
  | costAt (j : Int)
  | variableCount
  | rowCount
  | cells
  | matrix
  | rightSides
  | relations
  | objective
  | sense
  deriving Repr

inductive Command (α : Type) [Scalar α]
  | makeVariable (name kind : String) (value low high : α)
  | inspect (name : String)
  | withValue (name : String) (value : α)
  | withKind (name kind : String)
  | newModel
  | setColumns (model : Nat) (names : List String)
  | setRows (model : Nat) (matrix : List (List α)) (rhs : List α) (symbols : List String)
  | setObjective (model : Nat) (sense : String) (coefficients : List α)
  | relaxColumns (model : Nat)
  | convert (model : Nat) (indices : List Int)
  | orient (model : Nat) (target : String)
  | violated (model : Nat) (tol : α)
  | feasible (model : Nat) (tol : α)
  | ask (model : Nat) (query : Query)
  | newEngine (model : Nat) (options : Options α)
  | setIndices (engine : Nat) (indices : List Int)
  | listen (engine : Nat) (on : Bool) (listener : Listener := 0)
  | heard
  | limits (engine : Nat) (j : Int)
  | target (engine : Nat) (j : Int) (step : α) (direction : String)
  | totals (engine : Nat) (pending : List Int)
  | moveColumn (engine : Nat) (j : Int)
  | launch (engine : Nat)
  | launchNested (engine : Nat)
  | roundOnce (model : Nat) (indices : List Int) (options : Options α) (on : Bool)
    (listener : Listener := 0)

inductive Answer (α : Type)
  | done
  | truth (b : Bool)
  | count (n : Nat)
  | number (a : α)
  | numbers (xs : List α)
  | optionalNumbers (xs : Option (List α))
  | matrix (rows : List (List α))
  | positions (rows : List Nat)
  | relations (rs : List Relation)
  | relation (r : Relation)
  | sense (s : Option Sense)
  | cell (v : Variable α)
  | cells (vs : List (Variable α))
  | inspected (v : Variable α) (isIntegral : Bool) (gap : α)
  | verdict (v : Verdict α)
  | report (r : Report α)
  | reports (rs : List (Report α))

variable {α : Type} [Scalar α]

def Query.answer (q : Query) (m : Model α) (s : Store α) : Except (Fault α) (Answer α) :=
  match q with
  | .slack i => (m.slack s i).map .number
  | .slacks => (m.slacks s).map .numbers
  | .objectiveValue => (m.objectiveValue s).map .number
  | .cell j => (m.variableAt s j).map .cell
  | .value j => (m.variableAt s j).map fun v => .number v.value
  | .values => (m.values s).map .numbers
  | .coefficientAt i j => (m.coefficientAt i j).map .number
  | .rhs i => (m.rhs i).map .number
  | .relation i => (m.relation i).map .relation
  | .costAt j => (m.costAt j).map .number
  | .variableCount => m.requireColumns.map fun columns => .count columns.length
  | .rowCount => pure (.count m.rowCount)
  | .cells => m.requireColumns.map fun columns => .cells (columns.map s.read)
  | .matrix => m.requireRows.map fun rows => .matrix (rows.map (·.coefficients))
  | .rightSides => m.requireRows.map fun rows => .numbers (rows.map (·.rhs))
  | .relations => m.requireRows.map fun rows => .relations (rows.map (·.relation))
  | .objective => pure (.optionalNumbers (m.objective.map (·.coefficients)))
  | .sense => pure (.sense m.sense)

def Command.perform : Command α → Session α (Answer α)
  | .makeVariable name kind value low high =>
    return .cell (← Session.makeVariable name kind value low high)
  | .inspect name => do
    let v ← Session.variableNamed name
    let distance ← Session.ofExcept (Scalar.gap? v.value)
    return .inspected v v.isIntegral distance
  | .withValue name value => do
    Session.withValue name value
    return .done
  | .withKind name kind => do
    Session.withKind name kind
    return .done
  | .newModel => do
    modify fun w => { w with models := w.models.push {} }
    return .done
  | .setColumns k names => return .verdict (← Session.setColumns k names)
  | .setRows k matrix rhs symbols =>
    return .verdict (← Session.inModel k (Action.updating (·.setRows matrix rhs symbols)))
  | .setObjective k sense coefficients =>
    return .verdict (← Session.inModel k (Action.updating (·.setObjective sense coefficients)))
  | .relaxColumns k => do
    Session.inModel k Action.relaxColumns
    return .done
  | .convert k indices =>
    return .verdict (← Session.inModel k (Action.convert indices))
  | .orient k symbol => do
    let r ← Session.ofExcept (Relation.ofSymbol symbol)
    return .positions (← Session.inModel k (Action.orient r))
  | .violated k tol => return .positions (← Session.askModel k (·.violated tol ·))
  | .feasible k tol => return .truth (← Session.askModel k (·.isFeasible tol ·))
  | .ask k query => Session.askModel k query.answer
  | .newEngine k options => do
    Session.newEngine k options
    return .done
  | .setIndices e indices => do
    Session.setIndices e indices
    return .done
  | .listen e on listener => do
    Session.listen e (if on then some listener else none)
    return .done
  | .heard => return .reports ((← get).heard.toList.map (·.2))
  | .limits e j => return .numbers (← Session.askEngine e (·.limits · j))
  | .target e j step direction =>
    return .number (← Session.askEngine e (·.target · j step direction))
  | .totals e pending => return .numbers (← Session.askEngine e (·.totals · pending))
  | .moveColumn e j => return .truth (← Session.moveColumn e j)
  | .launch e => return .report (← Session.launch e)
  | .launchNested e => return .report (← Session.launchNested e)
  | .roundOnce k indices options on listener =>
    return .report (← Session.roundOnce k options indices (if on then some listener else none))

end MilpRounding
