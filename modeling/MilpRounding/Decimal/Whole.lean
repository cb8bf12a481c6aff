import MilpRounding.Decimal.Numeral

namespace MilpRounding.Decimal

def dropPlus? : List Char → Option (List Char)
  | '+' :: '-' :: _ => none
  | '+' :: cs => some cs
  | cs => some cs

def startsNumber (c : Char) : Bool := c == '-' || (c.isDigit && c != '0')

/-- What follows a zero or, after zeros, an underscore. That last character is kept only where no
other digit stands before the point or the end. -/
def dropZerosAfter? (last : Char) : List Char → Option (List Char)
  | [] => some [last]
  | c :: cs =>
    if c = '0' ∨ c = '_' then dropZerosAfter? c cs
    else if c = '.' then some (last :: c :: cs)
    else if startsNumber c then some (c :: cs)
    else none

def dropLeadingZeros? : List Char → Option (List Char)
  | [] => none
  | c :: cs =>
    if c = '0' then dropZerosAfter? c cs
    else if startsNumber c then some (c :: cs)
    else none

/-- A fraction is dropped if it has digits and all of them are zeros. -/
def dropFraction (cs : List Char) : List Char :=
  let (whole, rest) := cs.span (· ≠ '.')
  if rest.tail ≠ [] ∧ rest.tail.all (· = '0') then whole else cs

def plainForm? (s : String) : Option (List Char) :=
  (dropPlus? (Text.strip Text.isWhiteSpace s.toList)).bind fun cs =>
    (dropLeadingZeros? cs).map fun cs =>
      (dropUnderscores? (dropFraction cs)).getD (dropFraction cs)

def splitMinus : List Char → Bool × List Char
  | '-' :: cs => (true, cs)
  | cs => (false, cs)

/-- The sign counts as a digit, and whatever stands behind the digits does not matter. -/
def isOverlong (cs : List Char) : Bool :=
  let (negative, rest) := splitMinus cs
  let digits := rest.takeWhile Char.isDigit
  digits.head? != some '0' && digitLimit < digits.length + negative.toNat

def readPlain? (cs : List Char) : Option Int :=
  let (negative, digits) := splitMinus cs
  if digits ≠ [] ∧ digits.all Char.isDigit ∧ (digits.head? = some '0' → digits = ['0']) then
    some (Binary64.signed negative (valueOfDigits digits))
  else none

end MilpRounding.Decimal
