import V2x.Bits
import V2x.Fault

/-!
# The common header

Every message begins with six octets: protocol version, message identifier and the identifier of
the sending station.
-/

namespace V2x

structure Header where
  version : UInt8
  messageId : UInt8
  stationId : UInt32
  deriving DecidableEq, Repr

namespace Header

def size : Nat := 6

/-- The header in front of `data` and what follows it. -/
def decode : Octets → Except Fault (Header × Octets)
  | version :: messageId :: a :: b :: c :: d :: rest =>
    .ok (⟨version, messageId, UInt32.ofNat (Octets.toNat [a, b, c, d])⟩, rest)
  | data => .error (.incomplete (8 * size) (8 * data.length))

def encode (h : Header) : Octets :=
  h.version :: h.messageId :: Octets.ofNat 4 h.stationId.toNat

end Header

end V2x
