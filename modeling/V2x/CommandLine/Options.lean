import V2x.Text.Numeral

/-!
# Command line options

What the program takes of its arguments, and a parser to run it with. Options may stand anywhere before a
double dash. Asking for help wins over everything but a mistake in the options before it. What is said of
runs in general holds whichever way arguments are read.
-/

namespace V2x.CommandLine

structure Options where
  /-- Grammars forced on message identifiers, as they were given. -/
  mappings : List String := []
  attemptNoRegion : Bool := false
  listen : Option String := none
  /-- Datagrams dissected at once while listening. -/
  maxInFlight : Option Nat := none
  pdus : List String := []
  deriving DecidableEq, Repr

inductive Stop
  | help
  | misuse (message : String)
  deriving DecidableEq, Repr

namespace Options

/-- Options that take a value. -/
inductive Valued
  | mapping
  | listen
  | maxInFlight

def valued? (arg : String) : Option Valued :=
  if arg = "-d" ∨ arg = "--decode-as" then some .mapping
  else if arg = "-l" ∨ arg = "--listen" then some .listen
  else if arg = "--max-in-flight" then some .maxInFlight
  else none

def invalid (arg value reason : String) : Stop :=
  .misuse s!"Error parsing option '{arg}' with value '{value}': {reason}\n"

/-- Takes up the value of an option. Only mappings may be given more than once. -/
def set (o : Options) (arg value : String) : Valued → Except Stop Options
  | .mapping => .ok { o with mappings := o.mappings ++ [value] }
  | .listen =>
    if o.listen.isSome then .error (invalid arg value "duplicate values provided")
    else .ok { o with listen := some value }
  | .maxInFlight =>
    if o.maxInFlight.isSome then .error (invalid arg value "duplicate values provided")
    else
      match Text.Numeral.parse (2 ^ 64 - 1) value with
      | .ok n => .ok { o with maxInFlight := some n }
      | .error e => .error (invalid arg value e.message)

/-- Reads arguments on from `o`; `ended` once the double dash and `help` once a request for help has
been met. -/
def parseFrom (ended help : Bool) (o : Options) : List String → Except Stop Options
  | [] => if help then .error .help else .ok o
  | arg :: rest =>
    if !ended ∧ (arg = "--help" ∨ arg = "help") then parseFrom ended true o rest
    else if !ended ∧ arg.startsWith "-" then
      if arg = "--" then parseFrom true help o rest
      else if help then .error (.misuse "Trailing arguments are not allowed after `help`.")
      else if arg = "--attempt-no-region" then
        parseFrom ended help { o with attemptNoRegion := true } rest
      else
        match valued? arg, rest with
        | none, _ => .error (.misuse s!"Unrecognized argument: {arg}\n")
        | some _, [] => .error (.misuse s!"No value provided for option '{arg}'.\n")
        | some option, value :: rest =>
          match o.set arg value option with
          | .ok o => parseFrom ended help o rest
          | .error stop => .error stop
    else
      parseFrom ended help { o with pdus := o.pdus ++ [arg] } rest

def parse (args : List String) : Except Stop Options :=
  parseFrom false false {} args

def usage : String :=
  "Usage: its-dissect [-d <decode-as...>] [--attempt-no-region] [-l <listen>] " ++
    "[--max-in-flight <max-in-flight>] [--] [<pdus...>]\n" ++
  "\n" ++
  "Dissect ETSI ITS application PDUs (DENM, SSEM, ...)\n" ++
  "\n" ++
  "Positional Arguments:\n" ++
  "  pdus              hex encoded PDUs; read one per line from stdin when none are\n" ++
  "                    given\n" ++
  "\n" ++
  "Options:\n" ++
  "  -d, --decode-as   force a message id to a grammar, e.g. `1=SSEM` (repeatable)\n" ++
  "  --attempt-no-region\n" ++
  "                    look up regional extensions whose RegionId is noRegion\n" ++
  "                    instead of skipping them\n" ++
  "  -l, --listen      listen for BTP-B datagrams on this UDP address instead of\n" ++
  "                    reading PDUs\n" ++
  "  --max-in-flight   datagrams dissected concurrently while listening\n" ++
  "  --help, help      display usage information\n" ++
  "\n"

end Options

end V2x.CommandLine
