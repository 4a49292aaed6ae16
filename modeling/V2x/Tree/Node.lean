import V2x.Fault
import V2x.Tree.Value

/-!
# Field trees

What a dissection shows: named fields with values, notes and fields below them.
-/

namespace V2x

inductive Severity
  | note
  | warn
  | error
  deriving DecidableEq, Repr

namespace Severity

def rank : Severity → Nat
  | .note => 0
  | .warn => 1
  | .error => 2

def name : Severity → String
  | .note => "Note"
  | .warn => "Warn"
  | .error => "Error"

def max (a b : Severity) : Severity :=
  if a.rank ≤ b.rank then b else a

end Severity

structure Note where
  severity : Severity
  message : String
  deriving DecidableEq, Repr

/-- Unsupported parts are a warning, every other fault is an error. -/
def Fault.severity : Fault → Severity
  | .unsupported _ => .warn
  | _ => .error

def Fault.note (fault : Fault) : Note :=
  ⟨fault.severity, fault.message⟩

structure Node where
  name : String
  value : Value := .none
  notes : List Note := []
  children : List Node := []
  deriving Repr, BEq, Inhabited

namespace Node

def leaf (name : String) (value : Value) : Node :=
  { name, value }

/-- Octets that no grammar has claimed. -/
def raw (data : Octets) : Node :=
  leaf "data" (.octets data)

def push (n child : Node) : Node :=
  { n with children := n.children ++ [child] }

def addNote (n : Node) (note : Note) : Node :=
  { n with notes := n.notes ++ [note] }

def addFault (n : Node) (fault : Fault) : Node :=
  n.addNote fault.note

/-- Applies `f` at the end of a path of child positions; a path that leads nowhere changes
nothing. -/
def modifyAt (f : Node → Node) : List Nat → Node → Node
  | [], n => f n
  | i :: path, n => { n with children := n.children.modify i (modifyAt f path) }

def at? : List Nat → Node → Option Node
  | [], n => some n
  | i :: path, n => n.children[i]?.bind (at? path)

end Node

end V2x
