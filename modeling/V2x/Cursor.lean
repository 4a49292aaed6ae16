import V2x.Header
import V2x.Transport

/-!
# Taking headers from a cursor

A cursor stands in a sequence of octets, before those not taken yet. A header is taken octet by octet once it
is known that all its octets are there, so that a header that is cut short takes none.
-/

namespace V2x

structure Cursor where
  data : Octets
  position : Nat
  deriving DecidableEq, Repr

abbrev Take := EStateM Fault Cursor

namespace Cursor

def ahead (c : Cursor) : Octets :=
  c.data.drop c.position

def advance (c : Cursor) (n : Nat) : Cursor :=
  { c with position := c.position + n }

def octet : Take UInt8 := fun c =>
  match c.ahead with
  | octet :: _ => .ok octet (c.advance 1)
  | [] => .error (.incomplete 8 0) c

/-- Goes on with a number by `count` octets, the most significant one first. -/
def numberFrom (n : Nat) : (count : Nat) → Take Nat
  | 0 => pure n
  | count + 1 => do
    let octet ← octet
    numberFrom (256 * n + octet.toNat) count

def number (count : Nat) : Take Nat :=
  numberFrom 0 count

/-- Takes nothing unless `size` octets are there. -/
def whole {α : Type} (size : Nat) (take : Take α) : Take α := fun c =>
  if c.ahead.length < size then .error (.incomplete (8 * size) (8 * c.ahead.length)) c else take c

/-- Decodes what is ahead, and goes on to what follows. -/
def through {α : Type} (decode : Octets → Except Fault (α × Octets)) : Take α := fun c =>
  match decode c.ahead with
  | .ok (a, rest) => .ok a { c with position := c.data.length - rest.length }
  | .error fault => .error fault c

end Cursor

def Header.take : Take Header :=
  Cursor.whole Header.size do
    let version ← Cursor.octet
    let messageId ← Cursor.octet
    let stationId ← Cursor.number 4
    return ⟨version, messageId, UInt32.ofNat stationId⟩

namespace TransportHeader

/-- Takes the two port numbers of a header of either form. -/
def takePorts (make : UInt16 → UInt16 → TransportHeader) : Take TransportHeader :=
  Cursor.whole TransportHeader.size do
    let first ← Cursor.number 2
    let second ← Cursor.number 2
    return make (UInt16.ofNat first) (UInt16.ofNat second)

def takeInteractive : Take TransportHeader :=
  takePorts .interactive

def takeBroadcast : Take TransportHeader :=
  takePorts .broadcast

end TransportHeader

end V2x
