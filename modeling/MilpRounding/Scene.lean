import MilpRounding.Event
import MilpRounding.Linear.Kinds
import MilpRounding.Linear.Polarity

namespace MilpRounding

open Scalar

structure Scene (α : Type) where
  store : Store α
  model : Model α
  events : Array (Event α) := #[]

abbrev Action (α : Type) := EStateM (Fault α) (Scene α)

namespace Action

variable {α : Type} [Scalar α]

def note (e : Event α) : Action α Unit := modify fun c => { c with events := c.events.push e }

def ofExcept {β : Type} (r : Except (Fault α) β) : Action α β :=
  match r with
  | .ok b => pure b
  | .error fault => throw fault

def concluding (v : Verdict α) : Action α (Verdict α) := do
  match v with
  | .accepted => pure ()
  | .rejected reason => note (.updateRejected reason)
  pure v

def updating (update : Model α → Except (Rejection α) (Model α)) :
    Action α (Verdict α) := do
  match update (← get).model with
  | .ok m =>
    modify fun c => { c with model := m }
    pure .accepted
  | .error reason => concluding (.rejected reason)

def orient (target : Relation) : Action α (List Nat) := do
  let (m, rows) ← ofExcept ((← get).model.orient target)
  modify fun c => { c with model := m }
  unless rows.isEmpty do note (.rowsFlipped target rows)
  pure rows

def relaxColumns : Action α Unit := do
  let columns ← ofExcept (← get).model.requireColumns
  modify fun c => { c with store := MilpRounding.relaxColumns columns c.store }

def convert (indices : List Int) : Action α (Verdict α) := do
  let columns ← ofExcept (← get).model.requireColumns
  let (store, result) := convertColumns columns (← get).store indices
  modify fun c => { c with store := store }
  concluding (← ofExcept result)

end Action

end MilpRounding
