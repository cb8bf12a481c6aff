import MilpRounding.Decimal.Digits
import MilpRounding.Scalar.Binary64
import MilpRounding.Text.Blank
import MilpRounding.Text.Digit

namespace MilpRounding.Decimal

def valueOfDigits (cs : List Char) : Nat :=
  cs.foldl (fun n c => 10 * n + (c.toNat - '0'.toNat)) 0

/-- A number that no double can hold is an infinity, one below them all is zero; in
between the nearest double is taken. -/
def nearest (d : Decimal) : Float :=
  if d.coefficient = 0 ∨ d.leading < -330 then 0
  else if 310 < d.leading then Scalar.infinity
  else Float.ofScientific d.coefficient (d.scale < 0) d.scale.natAbs

def splitSign : List Char → Bool × List Char
  | '-' :: cs => (true, cs)
  | '+' :: cs => (false, cs)
  | cs => (false, cs)

def readExponent? : List Char → Option Int
  | [] => some 0
  | c :: cs =>
    let (negative, digits) := splitSign cs
    if (c = 'e' ∨ c = 'E') ∧ digits ≠ [] ∧ digits.all Char.isDigit then
      some (Binary64.signed negative (valueOfDigits digits))
    else none

def readUnsigned? (cs : List Char) : Option Decimal :=
  let (whole, rest) := cs.span Char.isDigit
  let (fraction, rest) := match rest with
    | '.' :: cs => cs.span Char.isDigit
    | _ => ([], rest)
  if whole.isEmpty && fraction.isEmpty then none
  else (readExponent? rest).map fun e =>
    ⟨valueOfDigits (whole ++ fraction), e - fraction.length⟩

def readMagnitude? (cs : List Char) : Option Float :=
  let word := String.ofList (cs.map Char.toLower)
  if word = "inf" ∨ word = "infinity" then some Scalar.infinity
  else if word = "nan" then some (Scalar.infinity - Scalar.infinity)
  else (readUnsigned? cs).map nearest

def readSigned? (cs : List Char) : Option Float :=
  let (negative, cs) := splitSign cs
  (readMagnitude? cs).map fun x => if negative then -x else x

/-- Underscores may stand between other characters, one at a time. -/
def dropUnderscores? (cs : List Char) : Option (List Char) :=
  let pieces := cs.splitOn '_'
  if pieces.length < 2 ∨ pieces.any List.isEmpty then none else some pieces.flatten

def readReal? (s : String) : Option Float :=
  -- blanks around a number or underscores inside it, but not both
  (readSigned? (Text.strip Text.isWhiteSpace s.toList)).or
    ((dropUnderscores? s.toList).bind readSigned?)

def readDigits? (cs : List Char) : Option Nat :=
  let digits := (dropUnderscores? cs).getD cs
  if digits ≠ [] ∧ digits.all Char.isDigit then some (valueOfDigits digits) else none

def digitLimit : Nat := 4300

def readInteger? (s : String) : Option Int :=
  let (negative, cs) := splitSign (Text.strip Text.isSpacing s.toList)
  let plain := cs.map fun c => match Text.digitValue? c with
    | some d => Nat.digitChar d
    | none => c
  (readDigits? plain).bind fun n =>
    if (plain.filter Char.isDigit).length ≤ digitLimit then some (Binary64.signed negative n)
    else none

end MilpRounding.Decimal
