import MilpRounding.Decimal.Shortest
import MilpRounding.Decimal.Rounded
import MilpRounding.Scalar.Binary64

namespace MilpRounding.Decimal

structure Layout where
  lowest : Int := -4
  limit : Int
  wholeEnd : String

def digitText (n : Nat) : String := String.ofList (Nat.toDigits 10 n)

def zeros (n : Nat) : String := String.ofList (List.replicate n '0')

def exponentText (e : Int) : String :=
  let digits := digitText e.natAbs
  let sign := if e < 0 then "-" else "+"
  "e" ++ sign ++ (if e.natAbs < 10 then "0" ++ digits else digits)

def pointAfter (n : Nat) (digits : List Char) : String :=
  String.ofList (digits.take n) ++ "." ++ String.ofList (digits.drop n)

def positional (wholeEnd : String) (d : Decimal) : String :=
  let digits := Nat.toDigits 10 d.coefficient
  if 0 ≤ d.scale then String.ofList digits ++ zeros d.scale.toNat ++ wholeEnd
  else if 0 ≤ d.leading then pointAfter (d.leading + 1).toNat digits
  else "0." ++ zeros (-d.leading - 1).toNat ++ String.ofList digits

def scientific (d : Decimal) : String :=
  let digits := Nat.toDigits 10 d.coefficient
  let mantissa := match digits with
    | [c] => String.singleton c
    | _ => pointAfter 1 digits
  mantissa ++ exponentText d.leading

def Layout.unsigned (layout : Layout) (d : Decimal) : String :=
  if d.coefficient = 0 then "0" ++ layout.wholeEnd
  else if layout.lowest ≤ d.leading ∧ d.leading < layout.limit then positional layout.wholeEnd d
  else scientific d

def full : Layout := { limit := 16, wholeEnd := ".0" }

def summary : Layout := { limit := 6, wholeEnd := "" }

def textWith (digits : Nat → Int → Decimal) (layout : Layout) (x : Float) : String :=
  let sign (negative : Bool) := if negative then "-" else ""
  match Binary64.decode x with
  | .undefined => "nan"
  | .infinite negative => sign negative ++ "inf"
  | .finite negative m q => sign negative ++ layout.unsigned (digits m q)

/-- The shortest text that reads back as the number. -/
def text (x : Float) : String := textWith shortest full x

def summaryText (x : Float) : String := textWith (rounded 6) summary x

end MilpRounding.Decimal
