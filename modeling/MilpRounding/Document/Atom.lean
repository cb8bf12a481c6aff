import MilpRounding.Decimal.Whole
import MilpRounding.Document.Checked

namespace MilpRounding.Document

open Checked

def asText : Document → Checked String
  | .text s => .ok s
  | _ => fail .notText

def asWord {β : Type} (read : String → Option β) : Document → Checked β
  | .text s => match read s with
    | some b => .ok b
    | none => fail .notLiteral
  | _ => fail .notLiteral

/-- An integer too large for a double is no real number. -/
def asReal : Document → Checked Float
  | .real x => .ok x
  | .integer n => if Binary64.isFinite (Float.ofInt n) then .ok (Float.ofInt n) else fail .notReal
  | .boolean b => .ok (Float.ofInt (if b then 1 else 0))
  | .text s => match Decimal.readReal? s with
    | some x => .ok x
    | none => fail .unreadableReal
  | _ => fail .notReal

def wordLimit : Int := Nat.pow 2 63

def wholeOf (x : Float) : Checked Int :=
  if Binary64.isFinite x = false then fail .infiniteInteger
  else if Scalar.isWhole x = false then fail .fractionalInteger
  else if -wordLimit < Scalar.floor x ∧ Scalar.floor x < wordLimit then .ok (Scalar.floor x)
  else fail .oversizedInteger

def integerOfText (s : String) : Checked Int :=
  match Decimal.plainForm? s with
  | none => fail .unreadableInteger
  | some cs =>
    if Decimal.isOverlong cs then fail .oversizedInteger
    else match Decimal.readPlain? cs with
      | some n => .ok n
      | none => fail .unreadableInteger

def asInteger : Document → Checked Int
  | .integer n => .ok n
  | .real x => wholeOf x
  | .boolean b => .ok (if b then 1 else 0)
  | .text s => integerOfText s
  | _ => fail .notInteger

def asPositive (d : Document) : Checked { n : Nat // 1 ≤ n } :=
  (asInteger d).bind fun n =>
    if h : 1 ≤ n.toNat then .ok ⟨n.toNat, h⟩ else fail .belowMinimum

def truthOfInteger (n : Int) : Checked Bool :=
  if n = 0 then .ok false else if n = 1 then .ok true else fail .unreadableTruth

def truthOfText (s : String) : Checked Bool :=
  let word := String.ofList (s.toList.map Char.toLower)
  if word ∈ ["0", "f", "n", "no", "off", "false"] then .ok false
  else if word ∈ ["1", "t", "y", "yes", "on", "true"] then .ok true
  else fail .unreadableTruth

/-- A number is judged only if it is a whole number that fits a machine word. -/
def asTruth : Document → Checked Bool
  | .boolean b => .ok b
  | .integer n =>
    if -wordLimit ≤ n ∧ n < wordLimit then truthOfInteger n else fail .notTruth
  | .real x => match wholeOf x with
    | .ok n => truthOfInteger n
    | .error _ => fail .notTruth
  | .text s => truthOfText s
  | _ => fail .notTruth

end MilpRounding.Document
