import MilpRounding.CommandLine.Listing
import MilpRounding.Sample.Table

namespace MilpRounding.CommandLine

def runGenerate (arguments : List String) : IO UInt32 := do
  let result := generate arguments
  IO.print result.printed
  match result.written with
  | some (file, content) => IO.FS.writeFile file content
  | none => pure ()
  pure result.status.toUInt32

def millisecondsText (nanoseconds : Nat) : String :=
  let hundredths := nanoseconds / 10000
  let rest := hundredths % 100
  s!"{hundredths / 100}." ++ (if rest < 10 then "0" else "") ++ toString rest

def runBench : IO UInt32 := do
  IO.println (Sample.columns ++ ",time_ms")
  for entry in Sample.cases do
    let start ← IO.monoNanosNow
    match Sample.lineOf entry with
    | some line =>
      let stop ← IO.monoNanosNow
      IO.println (line ++ "," ++ millisecondsText (stop - start))
    | none => pure ()
  pure 0

end MilpRounding.CommandLine

def main (arguments : List String) : IO UInt32 :=
  match arguments with
  | "generate" :: rest => MilpRounding.CommandLine.runGenerate rest
  | ["bench"] => MilpRounding.CommandLine.runBench
  | _ => do
    IO.eprintln "usage: (generate [OPTION ...] | bench)"
    pure 2
