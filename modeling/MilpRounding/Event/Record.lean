import MilpRounding.Event
import MilpRounding.Problem.Wording

namespace MilpRounding

def Severity.level : Severity → Int
  | .detail => 10
  | .notice => 20

def Severity.label : Severity → String
  | .detail => "DEBUG"
  | .notice => "INFO"

def Origin.label : Origin → String
  | .model => "linear"
  | .engine => "zi_round"
  | .tools => "server"

def listText (rows : List Nat) : String :=
  "[" ++ String.intercalate ", " (rows.map toString) ++ "]"

namespace Event

def text : Event Float → String
  | .rowsFlipped target rows =>
    s!"Flipped {rows.length} row(s) to {target.symbol} polarity: {listText rows}"
  | .updateRejected reason => s!"Rejected model update: {reason.reason}"
  | .sweepDone sweep moves pending up down =>
    s!"Sweep {sweep}: {moves} move(s), {pending} pending, " ++
      s!"slack up {Decimal.summaryText up}, slack down {Decimal.summaryText down}"
  | .runDone status sweeps rounded count =>
    s!"ZI-Round {status.word} after {sweeps} sweep(s): {rounded}/{count} variable(s) integral"
  | .problemRefused name refusal => s!"zi_round rejected model '{name}': {refusal.message}"

def padded (width : Nat) (s : String) : String :=
  s ++ String.ofList (List.replicate (width - s.length) ' ')

def line (e : Event Float) : String :=
  s!"[{padded 8 e.severity.label}] [{padded 15 e.origin.label}] - {e.text}"

/-- The lines of the events whose level is at least the threshold. -/
def lines (threshold : Int) (events : List (Event Float)) : List String :=
  (events.filter fun e => threshold ≤ e.severity.level).map line

end Event

end MilpRounding
