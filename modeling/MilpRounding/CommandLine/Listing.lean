import MilpRounding.CommandLine.Arguments
import MilpRounding.Document.Printer
import MilpRounding.Problem.Writer
import MilpRounding.Sample.Generated

namespace MilpRounding.CommandLine

def instanceDocument (generated : Problem Float × Point Float) : Document :=
  .object [("model", generated.1.document),
    ("solution", .object (generated.2.map fun entry => (entry.1, .real entry.2)))]

def Settings.documents (s : Settings) : List Document :=
  (List.range s.count.toNat).map fun (i : Nat) =>
    instanceDocument (Sample.generate s.variableCount s.constraintCount (s.seed.getD 0 + i))

def Settings.listing (s : Settings) : String := (Document.list s.documents).print 0

/-- What the generator leaves behind: the status it exits with, what it prints, and what it writes
to the file that was named, if any. -/
structure Outcome where
  status : Nat
  printed : String
  written : Option (String × String)

def helpText : String := "usage: [--vars N] [--constraints N] [--seed N] [--count N] [--out FILE]\n"

def generate (arguments : List String) : Outcome :=
  match read arguments with
  | .misuse => ⟨2, "", none⟩
  | .help => ⟨0, helpText, none⟩
  | .generate settings =>
    match settings.output with
    | none => ⟨0, settings.listing ++ "\n", none⟩
    | some file => ⟨0, "", some (file, settings.listing)⟩

end MilpRounding.CommandLine
