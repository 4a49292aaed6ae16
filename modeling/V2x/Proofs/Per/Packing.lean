import Mathlib.Algebra.Ring.Nat
import Mathlib.Data.List.Basic
import V2x.Proofs.Machine.Reader
import V2x.Proofs.Per.RoundTrip

/-!
# Packed octets as lists of bits

Whatever is written comes down to numbers cut to widths, and the octets written are the low bits of these, one
after another, with zeros up to the end of the last octet (`Packed`). What is read from a place is the number
that the bits from there on spell, in words as on unbounded numbers (`packed_bits`).
-/

namespace V2x.Per

/-- The low bits of a number, the most significant one first. -/
def lowBits (number : Nat × Nat) : List Bool :=
  (List.range number.1).map fun i => number.2.testBit (number.1 - 1 - i)

theorem lowBits_eq (width n : Nat) : Bits.ofNat width n = lowBits (width, n) := by
  refine List.ext_getElem? fun i => ?_
  by_cases hi : i < width
  · rw [Bits.getElem?_ofNat n hi, lowBits, List.getElem?_map, List.getElem?_range hi]
    rfl
  · rw [List.getElem?_eq_none (by simpa using hi), List.getElem?_eq_none (by simpa [lowBits] using hi)]

theorem length_flatMap_lowBits (numbers : List (Nat × Nat)) :
    (numbers.flatMap lowBits).length = (numbers.map Prod.fst).sum := by
  rw [List.length_flatMap]
  congr 1
  exact List.map_congr_left fun number _ => by rw [lowBits, List.length_map, List.length_range]

namespace WriteStep

/-- A length is told by one number below 128, and by a mark and a number from there on. -/
def lengthNumbers (n : Nat) : List (Nat × Nat) :=
  if n < 128 then [(8, n)] else [(2, 2), (14, n)]

def octetNumbers (data : Octets) : List (Nat × Nat) :=
  data.map fun octet => (8, octet.toNat)

/-- The numbers a write puts down, each behind the width that it is cut to. -/
def numbers : WriteStep → List (Nat × Nat)
  | .bits value width => [(width, value)]
  | .flag b => [(1, b.toNat)]
  | .constrained value lower upper =>
    [(Bits.widthBetween lower upper, ((value - lower) % 2 ^ 64).toNat)]
  | .index value roots extensible =>
    (if extensible then [(1, 0)] else []) ++ [(Bits.width roots, value)]
  | .length n => lengthNumbers n
  | .octets data => octetNumbers data
  | .openType data => lengthNumbers data.length ++ octetNumbers data

/-- The writer after the steps. -/
def after (steps : List WriteStep) : Writer :=
  steps.foldl (fun (w : Writer) (step : WriteStep) => step.run w) {}

theorem length_eq_numbers (n : Nat) : Encoding.length n = (lengthNumbers n).flatMap lowBits := by
  unfold Encoding.length lengthNumbers
  split
  · rw [Encoding.number, lowBits_eq, List.flatMap_singleton]
  · rw [Encoding.number, lowBits_eq, List.flatMap_cons, List.flatMap_singleton]
    rfl

theorem octets_eq_numbers (data : Octets) : Encoding.octets data = (octetNumbers data).flatMap lowBits := by
  rw [octetNumbers, List.flatMap_map]
  exact List.flatMap_congr fun octet _ => lowBits_eq 8 octet.toNat

theorem encoding_eq_numbers (step : WriteStep) : step.encoding = step.numbers.flatMap lowBits := by
  cases step with
  | bits value width => exact (lowBits_eq width value).trans (List.flatMap_singleton _ _).symm
  | flag b => cases b <;> rfl
  | constrained value lower upper => exact (lowBits_eq _ _).trans (List.flatMap_singleton _ _).symm
  | index value roots extensible =>
    have hindex : Encoding.number (Bits.width roots) value = lowBits (Bits.width roots, value) :=
      lowBits_eq _ _
    simp only [encoding, Encoding.index, numbers, List.flatMap_append, hindex, List.flatMap_singleton]
    cases extensible <;> rfl
  | length n => exact length_eq_numbers n
  | octets data => exact octets_eq_numbers data
  | openType data =>
    rw [encoding, Encoding.openType, numbers, List.flatMap_append, length_eq_numbers, octets_eq_numbers]

theorem encodings_eq_numbers (steps : List WriteStep) :
    encodings steps = (steps.flatMap numbers).flatMap lowBits := by
  rw [encodings, List.flatMap_assoc]
  exact List.flatMap_congr fun step _ => encoding_eq_numbers step

end WriteStep

/-- The writer has as many bits as the widths of the numbers come to, and no more octets than these take. The
octets are the low bits of the numbers and zeros. -/
structure Packed (w : Writer) (numbers : List (Nat × Nat)) : Prop where
  length : w.length = (numbers.map Prod.fst).sum
  size : w.data.size = (w.length + 7) / 8
  bits : Bits.ofOctets w.data.toList =
    numbers.flatMap lowBits ++ List.replicate (8 * w.data.size - w.length) false

theorem Writer.Holds.packed {w : Writer} {numbers : List (Nat × Nat)}
    (h : w.Holds (numbers.flatMap lowBits)) : Packed w numbers := by
  obtain ⟨n, hn, hbits⟩ := h.bits_eq
  have hsize := h.eight_mul_size hbits
  refine ⟨h.length_eq.trans (length_flatMap_lowBits numbers), by omega, ?_⟩
  rw [hbits, show 8 * w.data.size - w.length = n by omega]

theorem WriteStep.packed_after (steps : List WriteStep) :
    Packed (after steps) (steps.flatMap numbers) := by
  apply Writer.Holds.packed
  rw [← encodings_eq_numbers]
  exact holds_foldl Writer.holds_empty steps

/-- The bits that were written first are still there. -/
theorem WriteStep.take_after (steps more : List WriteStep) :
    (Bits.ofOctets (after (steps ++ more)).data.toList).take (after steps).length =
      (Bits.ofOctets (after steps).data.toList).take (after steps).length := by
  have hearlier := packed_after steps
  have hlength : (after steps).length = ((steps.flatMap numbers).flatMap lowBits).length := by
    rw [hearlier.length, length_flatMap_lowBits]
  rw [(packed_after (steps ++ more)).bits, hearlier.bits, hlength, List.flatMap_append,
    List.flatMap_append, List.append_assoc, List.take_left, List.take_left]

/-- A number is read wherever there are enough bits, and its value is the one these spell. -/
theorem Read.number_at (data : Octets) {p n : Nat} (h : p + n ≤ 8 * data.length) :
    number n ⟨data.toArray, p⟩ =
      .ok (Bits.toNat (((Bits.ofOctets data).drop p).take n)) ⟨data.toArray, p + n⟩ := by
  have hremaining : n ≤ (Reader.mk data.toArray p).remaining := by
    simp only [Reader.remaining, List.size_toArray]
    omega
  exact number_of_le hremaining

theorem Read.bits_at_words (data : Octets) {p n : Nat} (hn : n ≤ 64) (h : p + n ≤ 8 * data.length) :
    Machine.Reading.bits n ⟨data.toArray, p⟩ =
      .ok (Bits.toNat (((Bits.ofOctets data).drop p).take n)) ⟨data.toArray, p + n⟩ := by
  have hinside : (Reader.mk data.toArray p).Inside := by
    simp only [Reader.Inside, List.size_toArray]
    omega
  -- the loop that shifts agrees with the one on unbounded numbers, and this one is known to end well
  obtain ⟨-, hagrees⟩ := Machine.Reading.follows_number hn _ hinside
  rw [number_at data h] at hagrees
  obtain ⟨value, hread, rfl, -⟩ := hagrees
  exact hread

theorem Read.lt_of_number_at {data : Octets} {p n : Nat} :
    Bits.toNat (((Bits.ofOctets data).drop p).take n) < 2 ^ n := by
  refine Nat.lt_of_lt_of_le (Bits.toNat_lt _) (Nat.pow_le_pow_right (by decide) ?_)
  rw [List.length_take]
  exact Nat.min_le_left _ _

/-- Writers and readers are lists of bits. A writer holds the low bits of all numbers put down so far, packed
without a gap, and keeps them whatever is written later. A reader finds from any place the number that the bits
from there on spell, shifted into a word or not. -/
theorem packed_bits :
    (∀ steps : List WriteStep,
      Packed (WriteStep.after steps) (steps.flatMap WriteStep.numbers)) ∧
    (∀ steps more : List WriteStep,
      (Bits.ofOctets (WriteStep.after (steps ++ more)).data.toList).take (WriteStep.after steps).length =
        (Bits.ofOctets (WriteStep.after steps).data.toList).take (WriteStep.after steps).length) ∧
    ∀ (data : Octets) (p n : Nat), n ≤ 64 → p + n ≤ 8 * data.length →
      let value := Bits.toNat (((Bits.ofOctets data).drop p).take n)
      Read.number n ⟨data.toArray, p⟩ = .ok value ⟨data.toArray, p + n⟩ ∧
        Machine.Reading.bits n ⟨data.toArray, p⟩ = .ok value ⟨data.toArray, p + n⟩ ∧ value < 2 ^ n :=
  ⟨WriteStep.packed_after, WriteStep.take_after, fun data _ _ hn h =>
    ⟨Read.number_at data h, Read.bits_at_words data hn h, Read.lt_of_number_at⟩⟩

theorem packed_bits_across :
    12 ≤ 64 ∧ 3 + 12 ≤ 8 * [0xbf, (0xe3 : UInt8)].length ∧
      Read.number 12 ⟨#[0xbf, 0xe3], 3⟩ = .ok 0xff1 ⟨#[0xbf, 0xe3], 15⟩ := by
  have hplace : 3 + 12 ≤ 8 * [0xbf, (0xe3 : UInt8)].length := by decide
  exact ⟨by decide, hplace, (packed_bits.2.2 [0xbf, 0xe3] 3 12 (by decide) hplace).1⟩

end V2x.Per
