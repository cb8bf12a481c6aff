import MilpRounding.Decimal.Numeral

namespace MilpRounding.CommandLine

inductive OptionKey
  | help
  | variableCount
  | constraintCount
  | seed
  | count
  | output
  deriving DecidableEq, Repr

def optionNames : List (String × OptionKey) :=
  [("-h", .help), ("--help", .help), ("--vars", .variableCount),
    ("--constraints", .constraintCount), ("--seed", .seed), ("--count", .count), ("--out", .output)]

structure Settings where
  variableCount : Int := 3
  constraintCount : Int := 3
  seed : Option Int := none
  count : Int := 1
  output : Option String := none
  deriving Repr

inductive Request
  | generate (settings : Settings)
  | help
  | misuse
  deriving Repr

/-- What an argument is before it is known what stands around it. -/
inductive Argument
  | value (s : String)
  | option (key : OptionKey) (attached : Option String)
  | unknown
  | ambiguous
  | separator
  deriving Repr

def splitAttached (s : String) : String × Option String :=
  let (name, rest) := s.toList.span (· ≠ '=')
  match rest with
  | [] => (s, none)
  | _ :: value => (String.ofList name, some (String.ofList value))

def isDigit (c : Char) : Bool := (Text.digitValue? c).isSome

/-- A minus sign and digits, with at most one point before the last of them; a line break may
follow. -/
def isNegativeNumber (s : String) : Bool :=
  let cs := s.toList
  let cs := if cs.getLast? = some '\n' then cs.dropLast else cs
  match cs with
  | '-' :: rest =>
    let (whole, rest) := rest.span isDigit
    match rest with
    | [] => !whole.isEmpty
    | '.' :: fraction => !fraction.isEmpty && fraction.all isDigit
    | _ => false
  | _ => false

def classifyOther (s : String) : Argument :=
  let (name, attached) := splitAttached s
  let begun := if s.startsWith "--" then optionNames.filter (·.1.startsWith name) else []
  match attached.bind fun _ => optionNames.lookup name, begun with
  | some key, _ => .option key attached
  | none, [(_, key)] => .option key attached
  | none, _ :: _ :: _ => .ambiguous
  | none, [] => if isNegativeNumber s || s.contains ' ' then .value s else .unknown

def classify (s : String) : Argument :=
  if s.startsWith "-" = false ∨ s = "-" then .value s
  else match optionNames.lookup s with
    | some key => .option key none
    | none => classifyOther s

def classifyAll : List String → List Argument
  | [] => []
  | s :: rest => if s = "--" then .separator :: rest.map .value else classify s :: classifyAll rest

def Settings.set? (settings : Settings) (key : OptionKey) (value : String) : Option Settings :=
  let number := Decimal.readInteger? value
  match key with
  | .help => none
  | .variableCount => number.map fun n => { settings with variableCount := n }
  | .constraintCount => number.map fun n => { settings with constraintCount := n }
  | .seed => number.map fun n => { settings with seed := some n }
  | .count => number.map fun n => { settings with count := n }
  | .output => some { settings with output := some value }

/-- Reads on with the settings so far; `stray` remembers an argument that belongs to nothing. -/
def readFrom (settings : Settings) (stray : Bool) : List Argument → Request
  | [] => if stray then .misuse else .generate settings
  -- help wins over whatever comes later, and over stray arguments before it
  | .option .help none :: _ => .help
  | .option key (some value) :: rest =>
    match settings.set? key value with
    | some settings => readFrom settings stray rest
    | none => .misuse
  | .option key none :: .value value :: rest =>
    match settings.set? key value with
    | some settings => readFrom settings stray rest
    | none => .misuse
  | .option _ none :: _ => .misuse
  | _ :: rest => readFrom settings true rest

def isAmbiguous : Argument → Bool
  | .ambiguous => true
  | _ => false

def read (arguments : List String) : Request :=
  let arguments := classifyAll arguments
  if arguments.any isAmbiguous then .misuse else readFrom {} false arguments

end MilpRounding.CommandLine
