import MilpRounding.Rounding.Run

namespace MilpRounding

/-- Listeners are told apart by numbers. -/
abbrev Listener := Nat

structure Engine (α : Type) [Scalar α] where
  model : Nat
  options : Options α
  indices : Option (List Int) := none
  listener : Option Listener := none
  running : Bool := false

structure Workspace (α : Type) [Scalar α] where
  store : Store α := {}
  /-- The latest variable of each name stands first. -/
  names : List (String × Ref) := []
  models : Array (Model α) := #[{}]
  engines : Array (Engine α) := #[]
  heard : Array (Listener × Report α) := #[]
  events : Array (Event α) := #[]

/-- A failed step keeps what it changed before it failed. -/
abbrev Session (α : Type) [Scalar α] := EStateM (Fault α) (Workspace α)

variable {α : Type} [Scalar α]

namespace Workspace

def modelAt (w : Workspace α) (k : Nat) : Model α := w.models.getD k {}

def scene (w : Workspace α) (k : Nat) : Scene α := ⟨w.store, w.modelAt k, w.events⟩

def withScene (w : Workspace α) (k : Nat) (c : Scene α) : Workspace α :=
  { w with store := c.store, models := w.models.setIfInBounds k c.model, events := c.events }

def setRunning (w : Workspace α) (e : Nat) (running : Bool) : Workspace α :=
  { w with engines := w.engines.modify e fun g => { g with running := running } }

def hear (w : Workspace α) (e : Nat) (r : Report α) : Workspace α :=
  match w.engines[e]?.bind (·.listener) with
  | some listener => { w with heard := w.heard.push (listener, r) }
  | none => w

def refOf? (w : Workspace α) (name : String) : Option Ref := w.names.lookup name

def find? (w : Workspace α) (name : String) : Option (Variable α) :=
  (w.refOf? name).map w.store.read

end Workspace

namespace Session

def ofExcept {β : Type} (r : Except (Fault α) β) : Session α β :=
  match r with
  | .ok b => pure b
  | .error fault => throw fault

def refOf (name : String) : Session α Ref := do
  match (← get).refOf? name with
  | some r => pure r
  | none => throw (.unknownName name)

def variableNamed (name : String) : Session α (Variable α) := do
  let r ← refOf name
  pure ((← get).store.read r)

def makeVariable (name kind : String) (value low high : α) :
    Session α (Variable α) := do
  let kind ← ofExcept (Kind.ofWord kind)
  let v ← ofExcept (Variable.make kind value low high)
  modify fun w => { w with store := w.store.add v, names := (name, w.store.size) :: w.names }
  pure v

def change (name : String)
    (f : Variable α → Except (Fault α) (Variable α)) : Session α Unit := do
  let r ← refOf name
  let v ← ofExcept (f ((← get).store.read r))
  modify fun w => { w with store := w.store.write r v }

def withValue (name : String) (value : α) : Session α Unit := change name (·.withValue value)

def withKind (name kind : String) : Session α Unit :=
  change name fun v => do v.withKind (← Kind.ofWord kind)

def inModel {β : Type} (k : Nat) (action : Action α β) : Session α β := fun w =>
  match action.run (w.scene k) with
  | .ok b c => .ok b (w.withScene k c)
  | .error fault c => .error fault (w.withScene k c)

def askModel {β : Type} (k : Nat) (f : Model α → Store α → Except (Fault α) β) :
    Session α β := do
  let w ← get
  ofExcept (f (w.modelAt k) w.store)

def setColumns (k : Nat) (names : List String) : Session α (Verdict α) := do
  let columns ← names.mapM refOf
  inModel k (Action.updating (·.setColumns columns))

def engineAt (e : Nat) : Session α (Engine α) := do
  match (← get).engines[e]? with
  | some g => pure g
  | none => throw (.unknownName "engine")

def newEngine (k : Nat) (options : Options α) : Session α Unit :=
  modify fun w => { w with engines := w.engines.push { model := k, options } }

def changeEngine (e : Nat) (f : Engine α → Engine α) : Session α Unit := do
  let _ ← engineAt e
  modify fun w => { w with engines := w.engines.modify e f }

def setIndices (e : Nat) (indices : List Int) : Session α Unit :=
  changeEngine e fun g => { g with indices := some (Rounding.distinct indices) }

def listen (e : Nat) (listener : Option Listener) : Session α Unit :=
  changeEngine e fun g => { g with listener := listener }

def askEngine {β : Type} (e : Nat) (f : Model α → Store α → Except (Fault α) β) :
    Session α β := do
  askModel (← engineAt e).model f

def guarded (e : Nat) (body : Session α (Report α)) : Session α (Report α) := do
  if (← engineAt e).running then throw .reentrant
  modify (·.setRunning e true)
  -- the engine is released either way; only a report is heard
  fun w => match body w with
    | .ok r w => .ok r ((w.setRunning e false).hear e r)
    | .error fault w => .error fault (w.setRunning e false)

def runEngine (e : Nat) : Session α (Report α) := do
  let g ← engineAt e
  inModel g.model (Rounding.run g.options g.indices)

def launch (e : Nat) : Session α (Report α) := guarded e (runEngine e)

/-- A run that starts another run of the same engine. -/
def launchNested (e : Nat) : Session α (Report α) := guarded e (launch e)

def moveColumn (e : Nat) (j : Int) : Session α Bool := do
  let g ← engineAt e
  let k ← askModel g.model fun m _ => do resolve (← m.requireColumns).length j
  let y ← askModel g.model fun m _ => m.requireTableau
  inModel g.model (Rounding.roundColumn y k)

/-- One run of a new engine, which is gone afterwards. -/
def roundOnce (k : Nat) (options : Options α) (indices : List Int) (listener : Option Listener) :
    Session α (Report α) := do
  let r ← inModel k (Rounding.run options (some (Rounding.distinct indices)))
  match listener with
  | some listener => modify fun w => { w with heard := w.heard.push (listener, r) }
  | none => pure ()
  pure r

end Session

def Model.limits (m : Model α) (s : Store α) (j : Int) :
    Except (Fault α) (List α) := do
  let y ← m.requireTableau
  let k ← resolve y.columns.length j
  pure [y.limitUp s k, y.limitDown s k, y.reachUp s k, y.reachDown s k]

def Model.target (m : Model α) (s : Store α) (j : Int) (step : α)
    (direction : String) : Except (Fault α) α := do
  let d ← Direction.ofWord direction
  pure ((← m.variableAt s j).target step d)

/-- Without pending columns nothing is asked of the model. -/
def Model.totals (m : Model α) (s : Store α) (pending : List Int) :
    Except (Fault α) (List α) :=
  if pending.isEmpty then pure [0, 0]
  else do
    let y ← m.requireTableau
    let columns ← pending.mapM (resolve y.columns.length)
    let (up, down) := y.totals s columns
    pure [up, down]

end MilpRounding
