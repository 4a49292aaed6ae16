import V2x.Bits
import V2x.Fault

/-!
# Reading unaligned packed encodings

A reader walks over octets bit by bit, the most significant bit of each first. Each read either takes
its bits or fails without taking any; a compound read that fails keeps what its parts have taken, so
the reader shows how far it came.
-/

namespace V2x.Per

/-- Octets and the number of bits read from their front. -/
structure Reader where
  data : Array UInt8
  position : Nat
  deriving DecidableEq, Repr

namespace Reader

def ofOctets (data : Octets) : Reader :=
  ⟨data.toArray, 0⟩

def remaining (r : Reader) : Nat :=
  8 * r.data.size - r.position

/-- The octets touched so far; one read in part counts. -/
def consumedOctets (r : Reader) : Nat :=
  (r.position + 7) / 8

/-- The bit at a place, counted from the most significant bit of the first octet. -/
def bitAt (r : Reader) (place : Nat) : Bool :=
  (r.data.getD (place / 8) 0).toNat.testBit (7 - place % 8)

def advance (r : Reader) (n : Nat) : Reader :=
  { r with position := r.position + n }

def rest (r : Reader) : List Bool :=
  (Bits.ofOctets r.data.toList).drop r.position

end Reader

abbrev Read := EStateM Fault Reader

namespace Read

def bits (n : Nat) : Read (List Bool) := fun r =>
  if n ≤ r.remaining then
    .ok ((List.range' r.position n).map r.bitAt) (r.advance n)
  else
    .error (.incomplete n r.remaining) r

def number (width : Nat) : Read Nat := do
  return Bits.toNat (← bits width)

def flag : Read Bool := do
  return (← bits 1).headD false

/-- The extension bit of a type, which only an extensible type has. -/
def extensionBit (extensible : Bool) : Read Bool :=
  if extensible then flag else pure false

/-- A whole number constrained to `lower..upper`, as an offset from `lower`. The sum is taken in
signed 64-bit words, which wrap around as where overflow is not checked; `Machine.Reading.constrained`
checks it. -/
def constrained (lower upper : Int) : Read Int := do
  let offset ← number (Bits.widthBetween lower upper)
  return (lower + offset).bmod (2 ^ 64)

/-- An unconstrained length determinant: one octet below 128, two below 16384. -/
def length (field : String) : Read Nat := do
  if ← flag then
    if ← flag then throw (.fragmented field) else number 14
  else
    number 7

/-- A constrained number with an extension marker; outside its range it is written in two's
complement on as many octets as its length determinant says. -/
def extensibleInteger (field : String) (lower upper : Int) : Read Int := do
  if ← flag then
    let count ← length field
    if count = 0 ∨ 8 < count then
      throw (.outOfRange field count)
    else
      return Bits.toInt (← bits (8 * count))
  else
    constrained lower upper

/-- A number that is expected to be small: six bits below 64, else counted octets. -/
def normallySmall : Read Nat := do
  if ← flag then
    let count ← length "normally small number"
    if 8 < count then
      throw (.outOfRange "normally small number" count)
    else
      number (8 * count)
  else
    number 6

/-- A number in a fault is reported as a signed 64-bit word and stops at the largest one. -/
def saturated (n : Nat) : Int :=
  min n (2 ^ 63 - 1)

/-- The index of an enumeration value or a choice alternative. Extension additions count on from
the `roots`; an index that leaves 64 bits is out of range. -/
def index (roots : Nat) (extensible : Bool) : Read Nat := do
  if ← extensionBit extensible then
    let addition ← normallySmall
    if 2 ^ 64 ≤ roots + addition then
      throw (.outOfRange "enumerated extension" (saturated addition))
    else
      return roots + addition
  else
    number (Bits.width roots)

/-- The element count of a list whose size is constrained to `lower..upper`, as an unsigned 64-bit
word. -/
def size (lower upper : Nat) : Read Nat := do
  return ((← constrained lower upper) % 2 ^ 64).toNat

/-- Octets one by one, wherever they begin. -/
def unalignedOctets : (count : Nat) → Read Octets
  | 0 => pure []
  | count + 1 => do
    let first := UInt8.ofNat (← number 8)
    return first :: (← unalignedOctets count)

/-- The next `count` octets. Where these are octets of the data they are taken over whole. The bits of the
count are to be a 64-bit word's number. Otherwise their product traps, as in `Machine.Reading.octets`, or where
overflow is not checked it wraps around, and the octets to take over lie beyond the data. -/
def octets (count : Nat) : Read Octets := fun r =>
  if 8 * count ≤ r.remaining then
    if r.position % 8 = 0 then
      .ok (r.data.extract (r.position / 8) (r.position / 8 + count)).toList (r.advance (8 * count))
    else
      unalignedOctets count r
  else
    .error (.incomplete (8 * count) r.remaining) r

/-- An open type: counted octets that another grammar describes. -/
def openType (field : String) : Read Octets := do
  octets (← length field)

/-- One open type for each flag that is set. -/
def openTypes (field : String) : List Bool → Read (List Octets)
  | [] => pure []
  | true :: more => do
    let first ← openType field
    return first :: (← openTypes field more)
  | false :: more => openTypes field more

/-- The extension additions of a sequence: their number less one, a bitmap of those that are there,
and these as open types. -/
def additions : Read (List Octets) := do
  let last ← normallySmall
  if 64 ≤ last then
    throw (.outOfRange "extension additions" (saturated last))
  else
    openTypes "extension addition" (← bits (last + 1))

/-- Everything left, realigned to octets; a last part of an octet is filled up with zeros. -/
def rest : Read Octets := do
  let whole ← unalignedOctets ((← get).remaining / 8)
  let tail := (← get).remaining
  if tail = 0 then
    return whole
  else
    return whole ++ [UInt8.ofNat ((← number tail) * 2 ^ (8 - tail))]

end Read

end V2x.Per
