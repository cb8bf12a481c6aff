import MilpRounding.Decimal.Layout
import MilpRounding.Document
import MilpRounding.Text.Quoted

namespace MilpRounding.Document

open Text

def units (n : Nat) : List Nat :=
  if n < 0x10000 then [n]
  else [0xd800 + (n - 0x10000) / 0x400, 0xdc00 + (n - 0x10000) % 0x400]

def escapeChar (c : Char) : List Char :=
  if c = doubleQuote ∨ c = backslash then [backslash, c]
  else if c = '\n' then [backslash, 'n']
  else if c = '\r' then [backslash, 'r']
  else if c = '\t' then [backslash, 't']
  else if c.toNat = 8 then [backslash, 'b']
  else if c.toNat = 12 then [backslash, 'f']
  else if 0x20 ≤ c.toNat ∧ c.toNat < 0x7f then [c]
  else (units c.toNat).flatMap fun u => backslash :: 'u' :: hexadecimal 4 u

def textLiteral (s : String) : String :=
  String.ofList (doubleQuote :: s.toList.flatMap escapeChar ++ [doubleQuote])

def realLiteral (x : Float) : String :=
  match Binary64.decode x with
  | .undefined => "NaN"
  | .infinite negative => if negative then "-Infinity" else "Infinity"
  | .finite .. => Decimal.text x

def newline (depth : Nat) : String := "\n" ++ String.ofList (List.replicate (2 * depth) ' ')

mutual

def print (depth : Nat) : Document → String
  | .nothing => "null"
  | .boolean b => if b then "true" else "false"
  | .integer n => toString n
  | .real x => realLiteral x
  | .text s => textLiteral s
  | .list [] => "[]"
  | .list (d :: rest) =>
    "[" ++ newline (depth + 1) ++ print (depth + 1) d ++ printItems (depth + 1) rest ++
      newline depth ++ "]"
  | .object [] => "\x7b\x7d"
  | .object ((name, d) :: rest) =>
    "\x7b" ++ newline (depth + 1) ++ textLiteral name ++ ": " ++ print (depth + 1) d ++
      printFields (depth + 1) rest ++ newline depth ++ "\x7d"

def printItems (depth : Nat) : List Document → String
  | [] => ""
  | d :: rest => "," ++ newline depth ++ print depth d ++ printItems depth rest

def printFields (depth : Nat) : List (String × Document) → String
  | [] => ""
  | (name, d) :: rest =>
    "," ++ newline depth ++ textLiteral name ++ ": " ++ print depth d ++ printFields depth rest

end

end MilpRounding.Document
