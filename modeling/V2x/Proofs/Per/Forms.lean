import V2x.Per.Encoding

/-!
# Forms of an encoding

A short length can be told on one octet or on two, and a small number in six bits or on counted octets. A
writer takes the shortest form (`tellsLength_length`); a reader has to take each.
-/

namespace V2x.Per.Encoding

/-- The bits tell a length. -/
inductive TellsLength : List Bool → Nat → Prop
  | one {n : Nat} (h : n < 128) : TellsLength (flag false ++ number 7 n) n
  | two {n : Nat} (h : n < 16384) : TellsLength (flag true ++ (flag false ++ number 14 n)) n

/-- The bits tell a number that is expected to be small. -/
inductive TellsSmall : List Bool → Nat → Prop
  | six {n : Nat} (h : n < 64) : TellsSmall (flag false ++ number 6 n) n
  | counted {n count : Nat} {length : List Bool} (hlength : TellsLength length count)
      (hcount : count ≤ 8) (h : n < 2 ^ (8 * count)) :
      TellsSmall (flag true ++ (length ++ number (8 * count) n)) n

/-- Octets of an open type, behind any form of their length. -/
structure Enclosed where
  data : Octets
  length : List Bool
  tells : TellsLength length data.length

def Enclosed.bits (e : Enclosed) : List Bool :=
  e.length ++ octets e.data

theorem tellsLength_length {n : Nat} (h : n < 16384) : TellsLength (length n) n := by
  by_cases hn : n < 128
  · have htop : n.testBit 7 = false := Nat.testBit_lt_two_pow hn
    have hbits : length n = flag false ++ number 7 n := by
      simp [length, hn, number, flag, Bits.ofNat, htop]
    rw [hbits]
    exact .one hn
  · have hbits : length n = flag true ++ (flag false ++ number 14 n) := by
      simp [length, hn, flag]
    rw [hbits]
    exact .two h

theorem TellsSmall.ne_nil {bits : List Bool} {n : Nat} (h : TellsSmall bits n) : bits ≠ [] := by
  cases h <;> exact List.cons_ne_nil _ _

/-- An open type as it is written. -/
def Enclosed.ofOctets (data : Octets) (h : data.length < 16384) : Enclosed :=
  ⟨data, Encoding.length data.length, tellsLength_length h⟩

end V2x.Per.Encoding
