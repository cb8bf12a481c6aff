import MilpRounding.Document

namespace MilpRounding

inductive PathStep
  | field (name : String)
  | item (position : Nat)
  deriving DecidableEq, Repr

inductive IssueKind
  | missing
  | notObject
  | notList
  | notText
  | notLiteral
  | notReal
  | unreadableReal
  | notInteger
  | unreadableInteger
  | fractionalInteger
  | infiniteInteger
  | oversizedInteger
  | notTruth
  | unreadableTruth
  | belowMinimum
  deriving DecidableEq, Repr

structure Issue where
  kind : IssueKind
  path : List PathStep
  deriving DecidableEq, Repr

def IssueKind.code : IssueKind → String
  | .missing => "missing"
  | .notObject => "model_type"
  | .notList => "list_type"
  | .notText => "string_type"
  | .notLiteral => "literal_error"
  | .notReal => "float_type"
  | .unreadableReal => "float_parsing"
  | .notInteger => "int_type"
  | .unreadableInteger => "int_parsing"
  | .fractionalInteger => "int_from_float"
  | .infiniteInteger => "finite_number"
  | .oversizedInteger => "int_parsing_size"
  | .notTruth => "bool_type"
  | .unreadableTruth => "bool_parsing"
  | .belowMinimum => "greater_than_equal"

abbrev Checked (β : Type) := Except (List Issue) β

namespace Checked

variable {β γ : Type}

def fail (kind : IssueKind) : Checked β := .error [⟨kind, []⟩]

def beneath (step : PathStep) : Checked β → Checked β
  | .ok b => .ok b
  | .error issues => .error (issues.map fun i => { i with path := step :: i.path })

/-- Both checks are made, and the issues of the first come first. -/
def apply : Checked (β → γ) → Checked β → Checked γ
  | .ok f, .ok b => .ok (f b)
  | .ok _, .error e => .error e
  | .error e, .ok _ => .error e
  | .error e, .error e' => .error (e ++ e')

end Checked

namespace Document

open Checked

variable {β : Type}

def objectOf (check : List (String × Document) → Checked β) : Document → Checked β
  | .object fields => check fields
  | _ => fail .notObject

def required (name : String) (check : Document → Checked β) (fields : List (String × Document)) :
    Checked β :=
  beneath (.field name) <| match find? name fields with
    | some d => check d
    | none => fail .missing

def optional (name : String) (default : β) (check : Document → Checked β)
    (fields : List (String × Document)) : Checked β :=
  match find? name fields with
  | some d => beneath (.field name) (check d)
  | none => .ok default

def itemsFrom (check : Document → Checked β) : Nat → List Document → Checked (List β)
  | _, [] => .ok []
  | i, d :: rest =>
    apply ((beneath (.item i) (check d)).map List.cons) (itemsFrom check (i + 1) rest)

def listOf (check : Document → Checked β) : Document → Checked (List β)
  | .list items => itemsFrom check 0 items
  | _ => fail .notList

def nullable (check : Document → Checked β) : Document → Checked (Option β)
  | .nothing => .ok none
  | d => (check d).map some

end Document

end MilpRounding
