/-!
# Octets and bits

An encoding is a list of bits, the most significant bit of each number first. Octets are eight
such bits; a last group of fewer than eight is filled up with zeros on its right. At a given width
numbers and bits determine each other (`toNat_ofNat`, `ofNat_toNat`), and octets can be recovered
from their bits (`toOctets_ofOctets`).
-/

-- Powers are those of the core library, whatever else is imported.
attribute [instance (2000), default_instance 20000] instPowNat

namespace V2x

/-- Octets in the order they travel. -/
abbrev Octets := List UInt8

namespace Octets

def toNat (octets : Octets) : Nat :=
  octets.foldl (fun n octet => 256 * n + octet.toNat) 0

def ofNat : (count n : Nat) → Octets
  | 0, _ => []
  | count + 1, n => UInt8.ofNat (n / 256 ^ count) :: ofNat count n

end Octets

namespace Bits

def ofNat : (width n : Nat) → List Bool
  | 0, _ => []
  | width + 1, n => n.testBit width :: ofNat width n

def toNat (bits : List Bool) : Nat :=
  bits.foldl (fun n bit => 2 * n + bit.toNat) 0

/-- The number that `bits` spell in two's complement. -/
def toInt (bits : List Bool) : Int :=
  if bits.headD false then (toNat bits : Int) - 2 ^ bits.length else toNat bits

def ofOctets (octets : Octets) : List Bool :=
  octets.flatMap fun octet => ofNat 8 octet.toNat

/-- At most eight bits as one octet, left aligned. -/
def toOctet (bits : List Bool) : UInt8 :=
  UInt8.ofNat (toNat bits * 2 ^ (8 - bits.length))

/-- Groups of eight bits as octets; a shorter last group is filled up with zeros. -/
def toOctets : List Bool → Octets
  | [] => []
  | a :: b :: c :: d :: e :: f :: g :: h :: rest => toOctet [a, b, c, d, e, f, g, h] :: toOctets rest
  | tail => [toOctet tail]

/-- The fewest bits that tell `range` values apart. -/
def width (range : Nat) : Nat :=
  if range ≤ 1 then 0 else (range - 1).log2 + 1

/-- The bits of a number constrained to `lower..upper`, told by its offset from `lower`. The numbers
from `lower` up to `upper` are counted around the 64-bit words, so that bounds in descending order
enclose all words but those between them; their count is a word too, and all words count as none. This is
how words count where overflow is not checked. -/
def widthBetween (lower upper : Int) : Nat :=
  width ((upper - lower + 1) % 2 ^ 64).toNat

/-! ## Numbers -/

@[simp] theorem length_ofNat (width n : Nat) : (ofNat width n).length = width := by
  induction width with
  | zero => rfl
  | succ width ih => rw [ofNat, List.length_cons, ih]

theorem foldl_toNat (bits : List Bool) (n : Nat) :
    bits.foldl (fun n bit => 2 * n + bit.toNat) n = n * 2 ^ bits.length + toNat bits := by
  induction bits generalizing n with
  | nil => simp [toNat]
  | cons bit bits ih =>
    rw [toNat, List.foldl_cons, List.foldl_cons, ih, ih (2 * 0 + bit.toNat), List.length_cons,
      Nat.pow_succ, Nat.add_mul, Nat.mul_zero, Nat.zero_add, Nat.add_assoc, Nat.mul_comm 2 n,
      Nat.mul_assoc, Nat.mul_comm 2]

theorem toNat_append (a b : List Bool) : toNat (a ++ b) = toNat a * 2 ^ b.length + toNat b := by
  rw [toNat, List.foldl_append, foldl_toNat]
  rfl

theorem toNat_cons (bit : Bool) (bits : List Bool) :
    toNat (bit :: bits) = bit.toNat * 2 ^ bits.length + toNat bits := by
  simpa [toNat] using toNat_append [bit] bits

theorem toNat_lt (bits : List Bool) : toNat bits < 2 ^ bits.length := by
  induction bits with
  | nil => decide
  | cons bit bits ih =>
    rw [toNat_cons, List.length_cons, Nat.pow_succ]
    cases bit <;> simp only [Bool.toNat_false, Bool.toNat_true] <;> omega

theorem toNat_ofNat (width n : Nat) : toNat (ofNat width n) = n % 2 ^ width := by
  induction width with
  | zero => simp [ofNat, toNat, Nat.mod_one]
  | succ width ih =>
    rw [ofNat, toNat_cons, length_ofNat, ih, Nat.mod_pow_succ, Nat.toNat_testBit, Nat.mul_comm,
      Nat.add_comm]

theorem ofNat_congr {width m n : Nat} (h : ∀ i < width, m.testBit i = n.testBit i) :
    ofNat width m = ofNat width n := by
  induction width with
  | zero => rfl
  | succ width ih =>
    rw [ofNat, ofNat, h width (Nat.lt_succ_self _), ih fun i hi => h i (Nat.lt_succ_of_lt hi)]

theorem ofNat_toNat (bits : List Bool) : ofNat bits.length (toNat bits) = bits := by
  induction bits with
  | nil => rfl
  | cons bit bits ih =>
    have hlt := toNat_lt bits
    have hbit : (toNat (bit :: bits)).testBit bits.length = bit := by
      rw [toNat_cons, Nat.mul_comm, Nat.testBit_two_pow_mul_add _ hlt, if_neg (Nat.lt_irrefl _),
        Nat.sub_self]
      cases bit <;> rfl
    rw [List.length_cons, ofNat, hbit]
    refine congrArg (bit :: ·) (Eq.trans (ofNat_congr fun i hi => ?_) ih)
    rw [toNat_cons, Nat.mul_comm, Nat.testBit_two_pow_mul_add _ hlt, if_pos hi]

/-- At a width that holds it, a number with a sign comes back from its bits in two's complement. -/
theorem toInt_ofNat {width : Nat} {value : Int} (h : -2 ^ width ≤ value ∧ value < 2 ^ width) :
    toInt (ofNat (width + 1) (value % 2 ^ (width + 1)).toNat) = value := by
  obtain ⟨hl, hu⟩ := h
  have hpow : (2 : Int) ^ (width + 1) = 2 * 2 ^ width := by rw [Int.pow_succ, Int.mul_comm]
  have hcast : ((2 ^ width : Nat) : Int) = 2 ^ width := by push_cast; rfl
  have hnat : (2 : Nat) ^ (width + 1) = 2 * 2 ^ width := by rw [Nat.pow_succ, Nat.mul_comm]
  generalize hn : (value % 2 ^ (width + 1)).toNat = n
  have hlt : n < 2 ^ (width + 1) := by omega
  have hhead : (ofNat (width + 1) n).headD false = n.testBit width := rfl
  rw [toInt, hhead, length_ofNat, toNat_ofNat, Nat.mod_eq_of_lt hlt]
  by_cases h0 : 0 ≤ value
  · have hvalue : value % 2 ^ (width + 1) = value := Int.emod_eq_of_lt h0 (by omega)
    rw [Nat.testBit_lt_two_pow (by omega), if_neg (by decide)]
    omega
  · have hvalue : value % 2 ^ (width + 1) = value + 2 ^ (width + 1) := by
      rw [← Int.add_emod_right, Int.emod_eq_of_lt (by omega) (by omega)]
    rw [Nat.testBit_of_two_pow_le_and_two_pow_add_one_gt (by omega) hlt, if_pos rfl]
    omega

theorem getElem?_ofNat {width i : Nat} (n : Nat) (h : i < width) :
    (ofNat width n)[i]? = some (n.testBit (width - 1 - i)) := by
  induction width generalizing i with
  | zero => exact absurd h (Nat.not_lt_zero i)
  | succ width ih =>
    cases i with
    | zero => rfl
    | succ i =>
      rw [ofNat, List.getElem?_cons_succ, ih (Nat.lt_of_succ_lt_succ h)]
      congr 2
      omega

/-! ## Octets -/

@[simp] theorem ofOctets_nil : ofOctets [] = [] := rfl

@[simp] theorem ofOctets_cons (octet : UInt8) (octets : Octets) :
    ofOctets (octet :: octets) = ofNat 8 octet.toNat ++ ofOctets octets := rfl

@[simp] theorem ofOctets_append (a b : Octets) : ofOctets (a ++ b) = ofOctets a ++ ofOctets b :=
  List.flatMap_append

@[simp] theorem length_ofOctets (octets : Octets) :
    (ofOctets octets).length = 8 * octets.length := by
  induction octets with
  | nil => rfl
  | cons octet octets ih =>
    rw [ofOctets_cons, List.length_append, length_ofNat, ih, List.length_cons]
    omega

theorem getElem?_ofOctets {octets : Octets} {i : Nat} (h : i < 8 * octets.length) :
    (ofOctets octets)[i]? = some ((octets.getD (i / 8) 0).toNat.testBit (7 - i % 8)) := by
  induction octets generalizing i with
  | nil => exact absurd h (Nat.not_lt_zero i)
  | cons octet octets ih =>
    rw [ofOctets_cons]
    by_cases hi : i < 8
    · rw [List.getElem?_append_left (by simpa using hi), getElem?_ofNat _ hi,
        show i / 8 = 0 by omega, show i % 8 = i by omega]
      rfl
    · rw [List.getElem?_append_right (by simpa using hi), length_ofNat,
        ih (by rw [List.length_cons] at h; omega), show i / 8 = (i - 8) / 8 + 1 by omega,
        show (i - 8) % 8 = i % 8 by omega]
      rfl

theorem drop_ofOctets (n : Nat) (octets : Octets) :
    (ofOctets octets).drop (8 * n) = ofOctets (octets.drop n) := by
  induction n generalizing octets with
  | zero => rfl
  | succ n ih =>
    cases octets with
    | nil => simp
    | cons octet octets =>
      rw [List.drop_succ_cons, ← ih, ofOctets_cons, Nat.mul_succ, Nat.add_comm, ← List.drop_drop,
        List.drop_left' (length_ofNat 8 _)]

theorem take_ofOctets (n : Nat) (octets : Octets) :
    (ofOctets octets).take (8 * n) = ofOctets (octets.take n) := by
  have h := congrArg (List.take (8 * n)) (ofOctets_append (octets.take n) (octets.drop n))
  rw [List.take_append_drop] at h
  by_cases hn : n ≤ octets.length
  · rw [h, List.take_left' (by rw [length_ofOctets, List.length_take, Nat.min_eq_left hn])]
  · rw [List.take_of_length_le (by rw [length_ofOctets]; omega), List.take_of_length_le (by omega)]

theorem toOctets_append_eight {a : List Bool} (h : a.length = 8) (b : List Bool) :
    toOctets (a ++ b) = toOctet a :: toOctets b := by
  match a, h with
  | [_, _, _, _, _, _, _, _], _ => rfl

theorem toOctets_append {n : Nat} {a : List Bool} (h : a.length = 8 * n) (b : List Bool) :
    toOctets (a ++ b) = toOctets a ++ toOctets b := by
  induction n generalizing a with
  | zero =>
    rw [List.length_eq_zero_iff.mp h]
    rfl
  | succ n ih =>
    have h8 : (a.take 8).length = 8 := by rw [List.length_take]; omega
    have hmore := ih (a := a.drop 8) (by rw [List.length_drop]; omega)
    conv => lhs; rw [← List.take_append_drop 8 a, List.append_assoc]
    conv => rhs; rw [← List.take_append_drop 8 a]
    rw [toOctets_append_eight h8, toOctets_append_eight h8, hmore, List.cons_append]

theorem toOctets_of_length_lt {bits : List Bool} (h0 : bits ≠ []) (h : bits.length < 8) :
    toOctets bits = [toOctet bits] := by
  match bits, h0, h with
  | [_], _, _ | [_, _], _, _ | [_, _, _], _, _ | [_, _, _, _], _, _ | [_, _, _, _, _], _, _
  | [_, _, _, _, _, _], _, _ | [_, _, _, _, _, _, _], _, _ => rfl

theorem length_toOctets (bits : List Bool) : (toOctets bits).length = (bits.length + 7) / 8 := by
  by_cases h0 : bits = []
  · rw [h0]
    rfl
  rcases Nat.lt_or_ge bits.length 8 with h | h
  · have := List.length_pos_iff.mpr h0
    rw [toOctets_of_length_lt h0 h, List.length_singleton]
    omega
  · have h8 : (bits.take 8).length = 8 := by rw [List.length_take]; omega
    have ih := length_toOctets (bits.drop 8)
    rw [List.length_drop] at ih
    rw [← List.take_append_drop 8 bits, toOctets_append_eight h8, List.length_cons, ih,
      List.take_append_drop]
    omega
termination_by bits.length
decreasing_by rw [List.length_drop]; omega

theorem toOctet_ofNat (octet : UInt8) : toOctet (ofNat 8 octet.toNat) = octet := by
  rw [toOctet, toNat_ofNat, length_ofNat, Nat.mod_eq_of_lt (by exact octet.toNat_lt)]
  simp

theorem toOctets_ofNat_append (octet : UInt8) (rest : List Bool) :
    toOctets (ofNat 8 octet.toNat ++ rest) = octet :: toOctets rest := by
  refine Eq.trans ?_ (congrArg (· :: toOctets rest) (toOctet_ofNat octet))
  rfl

theorem toOctets_ofOctets (octets : Octets) : toOctets (ofOctets octets) = octets := by
  induction octets with
  | nil => rfl
  | cons octet octets ih =>
    refine Eq.trans (toOctets_ofNat_append octet (ofOctets octets)) ?_
    rw [ih]

/-! ## Widths -/

theorem width_le_iff {range bits : Nat} : width range ≤ bits ↔ range ≤ 2 ^ bits := by
  unfold width
  split
  · next h => exact ⟨fun _ => Nat.le_trans h Nat.one_le_two_pow, fun _ => Nat.zero_le _⟩
  · next h =>
    rw [Nat.succ_le_iff, Nat.log2_lt (by omega)]
    omega

theorem le_pow_width (range : Nat) : range ≤ 2 ^ width range :=
  width_le_iff.mp (Nat.le_refl _)

theorem widthBetween_of_le {lower upper : Int} (h : lower ≤ upper)
    (hlt : upper - lower + 1 < 2 ^ 64) :
    widthBetween lower upper = width (upper - lower + 1).toNat := by
  rw [widthBetween, Int.emod_eq_of_lt (by omega) hlt]

end Bits

end V2x
