import V2x.Text.Hex

/-!
# Field values

The value that a field of the tree shows, and its text.
-/

namespace V2x

inductive Value
  /-- The field only groups others. -/
  | none
  | unsigned (n : Nat)
  | signed (n : Int)
  | flag (b : Bool)
  | octets (data : Octets)
  /-- A number with the name it has, if it has one. -/
  | enumerated (n : Nat) (label : Option String)
  | text (s : String)
  deriving DecidableEq, Repr, Inhabited

namespace Value

def label? : Value → Option String
  | .enumerated _ label => label
  | _ => Option.none

/-- The value as a natural number, if it is one. -/
def toNat? : Value → Option Nat
  | .unsigned n => some n
  | .enumerated n _ => some n
  | .signed n => if 0 ≤ n then some n.toNat else Option.none
  | _ => Option.none

def render : Value → String
  | .none => ""
  | .unsigned n => toString n
  | .signed n => toString n
  | .flag b => if b then "true" else "false"
  | .octets data => Text.Hex.encode data
  | .enumerated n (some label) => s!"{label} ({n})"
  | .enumerated n Option.none => s!"Unknown ({n})"
  | .text s => s

end Value

end V2x
