import V2x.Per.Encoding
import V2x.Per.Reader
import V2x.Per.Writer

/-!
# Reads and writes as data

One constructor for each operation, so that whole sequences of them can be given, run and
reasoned about.
-/

namespace V2x.Per

inductive ReadStep
  | bits (n : Nat)
  | flag
  | presence (n : Nat)
  | constrained (lower upper : Int)
  | extensibleInteger (field : String) (lower upper : Int)
  | index (roots : Nat) (extensible : Bool)
  | normallySmall
  | length (field : String)
  | size (lower upper : Nat)
  | octets (count : Nat)
  | openType (field : String)
  | additions
  | rest
  deriving DecidableEq, Repr

inductive Reading
  | number (n : Int)
  | count (n : Nat)
  | flag (b : Bool)
  /-- A bitmap of optional components, the first one first. -/
  | presence (bits : List Bool)
  | octets (data : Octets)
  | additions (data : List Octets)
  deriving DecidableEq, Repr

def ReadStep.run : ReadStep → Read Reading
  | .bits n => return .number (← Read.number n)
  | .flag => return .flag (← Read.flag)
  | .presence n => return .presence (← Read.bits n)
  | .constrained lower upper => return .number (← Read.constrained lower upper)
  | .extensibleInteger field lower upper =>
    return .number (← Read.extensibleInteger field lower upper)
  | .index roots extensible => return .number (← Read.index roots extensible)
  | .normallySmall => return .number (← Read.normallySmall)
  | .length field => return .count (← Read.length field)
  | .size lower upper => return .count (← Read.size lower upper)
  | .octets count => return .octets (← Read.octets count)
  | .openType field => return .octets (← Read.openType field)
  | .additions => return .additions (← Read.additions)
  | .rest => return .octets (← Read.rest)

/-- Whether component `i` of a presence bitmap is there; those beyond its end are not. -/
def isPresent (bitmap : List Bool) (i : Nat) : Bool :=
  bitmap.getD i false

/-- What a read came to, and the reader after it. -/
structure Outcome where
  result : Except Fault Reading
  reader : Reader

/-- Runs every step on the same reader; a step that fails does not stop the next one. -/
def ReadStep.runAll : List ReadStep → Reader → List Outcome
  | [], _ => []
  | step :: more, r =>
    match step.run r with
    | .ok reading after => ⟨.ok reading, after⟩ :: runAll more after
    | .error fault after => ⟨.error fault, after⟩ :: runAll more after

inductive WriteStep
  | bits (value width : Nat)
  | flag (b : Bool)
  | constrained (value lower upper : Int)
  | index (value roots : Nat) (extensible : Bool)
  | length (n : Nat)
  | octets (data : Octets)
  | openType (data : Octets)
  deriving DecidableEq, Repr

def WriteStep.run : WriteStep → Writer → Writer
  | .bits value width => Writer.number width value
  | .flag b => fun w => w.push b
  | .constrained value lower upper => Writer.constrained value lower upper
  | .index value roots extensible => Writer.index value roots extensible
  | .length n => Writer.lengthDeterminant n
  | .octets data => Writer.octets data
  | .openType data => Writer.openType data

/-- Runs every step on the same writer; gives the writer after each step. -/
def WriteStep.runAll : List WriteStep → Writer → List Writer
  | [], _ => []
  | step :: more, w => step.run w :: runAll more (step.run w)

/-- The octets that steps leave in a new writer. -/
def WriteStep.write (steps : List WriteStep) : Octets :=
  (steps.foldl (fun (w : Writer) (step : WriteStep) => step.run w) {}).data.toList

/-- The bits that a write appends. -/
def WriteStep.encoding : WriteStep → List Bool
  | .bits value width => Encoding.number width value
  | .flag b => Encoding.flag b
  | .constrained value lower upper => Encoding.constrained value lower upper
  | .index value roots extensible => Encoding.index value roots extensible
  | .length n => Encoding.length n
  | .octets data => Encoding.octets data
  | .openType data => Encoding.openType data

end V2x.Per
