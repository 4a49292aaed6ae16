import V2x.Bits

/-!
# Unaligned packed encodings

The encoding of a value is a list of bits, and the encoding of several values is the concatenation,
whatever place in an octet it comes to.
-/

namespace V2x.Per.Encoding

def number (width n : Nat) : List Bool :=
  Bits.ofNat width n

def flag (b : Bool) : List Bool :=
  [b]

/-- The offset of `value` from `lower`, as a 64-bit word cut to the width of the range. -/
def constrained (value lower upper : Int) : List Bool :=
  number (Bits.widthBetween lower upper) ((value - lower) % 2 ^ 64).toNat

/-- The index of a root enumeration value or alternative, after a cleared extension bit if the
type is extensible. -/
def index (value roots : Nat) (extensible : Bool) : List Bool :=
  (if extensible then [false] else []) ++ number (Bits.width roots) value

def length (n : Nat) : List Bool :=
  if n < 128 then number 8 n else true :: false :: number 14 n

def octets (data : Octets) : List Bool :=
  Bits.ofOctets data

def openType (data : Octets) : List Bool :=
  length data.length ++ octets data

end V2x.Per.Encoding
