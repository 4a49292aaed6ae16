import V2x.Bits

/-!
# Writing unaligned packed encodings

A writer appends bits to octets, of which the last may be filled in part; the bits not written yet are
zeros. A number that does not fit its width loses its high bits.
-/

namespace V2x.Per

structure Writer where
  data : Array UInt8 := #[]
  length : Nat := 0
  deriving DecidableEq, Repr

namespace Writer

/-- Appends a bit, to a new octet where the last one is full. -/
def push (w : Writer) (bit : Bool) : Writer :=
  let data := if w.length % 8 = 0 then w.data.push 0 else w.data
  { data :=
      if bit then
        data.modify (data.size - 1) fun octet => octet ||| UInt8.ofNat (2 ^ (7 - w.length % 8))
      else data
    length := w.length + 1 }

def number : (width n : Nat) → Writer → Writer
  | 0, _, w => w
  | width + 1, n, w => number width n (w.push (n.testBit width))

/-- The offset of `value` from `lower`, as a word that wraps around as where overflow is not checked. -/
def constrained (value lower upper : Int) (w : Writer) : Writer :=
  w.number (Bits.widthBetween lower upper) ((value - lower) % 2 ^ 64).toNat

def index (value roots : Nat) (extensible : Bool) (w : Writer) : Writer :=
  (if extensible then w.push false else w).number (Bits.width roots) value

/-- Appends a length determinant: one octet below 128, two from there on. -/
def lengthDeterminant (n : Nat) (w : Writer) : Writer :=
  if n < 128 then w.number 8 n else (w.number 2 2).number 14 n

def octets (data : Octets) (w : Writer) : Writer :=
  data.foldl (fun w octet => w.number 8 octet.toNat) w

def openType (data : Octets) (w : Writer) : Writer :=
  (w.lengthDeterminant data.length).octets data

end Writer

end V2x.Per
