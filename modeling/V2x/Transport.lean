import V2x.Bits
import V2x.Fault
import V2x.Vocabulary.Service

/-!
# Transport headers

Four octets in front of a message name the destination port and, by form, either the port of the
sender or more about the destination.
-/

namespace V2x

inductive TransportHeader
  /-- A sender that can be answered. -/
  | interactive (destination source : UInt16)
  /-- Messages that are only sent out. -/
  | broadcast (destination info : UInt16)
  deriving DecidableEq, Repr

namespace TransportHeader

def size : Nat := 4

/-- The two port numbers in front of `data` and what follows them. -/
def decodePorts : Octets → Except Fault (UInt16 × UInt16 × Octets)
  | a :: b :: c :: d :: rest =>
    .ok (UInt16.ofNat (Octets.toNat [a, b]), UInt16.ofNat (Octets.toNat [c, d]), rest)
  | data => .error (.incomplete (8 * size) (8 * data.length))

def decodeInteractive (data : Octets) : Except Fault (TransportHeader × Octets) := do
  let (destination, source, rest) ← decodePorts data
  return (.interactive destination source, rest)

def decodeBroadcast (data : Octets) : Except Fault (TransportHeader × Octets) := do
  let (destination, info, rest) ← decodePorts data
  return (.broadcast destination info, rest)

def encode : TransportHeader → Octets
  | .interactive first second => Octets.ofNat 2 first.toNat ++ Octets.ofNat 2 second.toNat
  | .broadcast first second => Octets.ofNat 2 first.toNat ++ Octets.ofNat 2 second.toNat

def destination : TransportHeader → UInt16
  | .interactive port _ => port
  | .broadcast port _ => port

def service? (h : TransportHeader) : Option Service :=
  Service.ofPort? h.destination

end TransportHeader

end V2x
