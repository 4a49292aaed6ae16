/-!
# Decode faults

What can be wrong with an encoding, and the text that reports it.
-/

namespace V2x

inductive Fault
  | incomplete (needed available : Nat)
  /-- A number that its field does not admit. -/
  | outOfRange (field : String) (value : Int)
  /-- A length determinant that announces fragments. -/
  | fragmented (field : String)
  /-- A part of the encoding that no grammar describes. -/
  | unsupported (field : String)
  | invalidChoice (field : String) (index : Nat)
  deriving DecidableEq, Repr

def Fault.message : Fault → String
  | .incomplete needed available =>
    s!"Incomplete encoding: need {needed} bits, {available} available"
  | .outOfRange field value => s!"Value {value} of '{field}' is out of range"
  | .fragmented field => s!"Fragmented length determinant in '{field}' is not supported"
  | .unsupported field => s!"Decoding of '{field}' is not supported"
  | .invalidChoice field index => s!"Invalid choice index {index} for '{field}'"

end V2x
