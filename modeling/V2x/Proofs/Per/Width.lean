import V2x.Proofs.Per.Packing

/-!
# The width of a range

The bits of a constrained number are as many as tell the numbers of its range apart, and no more. In words their
number is counted from the leading zeros of the largest offset. At this width every offset of the range is written
in full, wherever in an octet it begins (`width_least`).
-/

namespace V2x

namespace Bits

theorem width_mono {range larger : Nat} (h : range ≤ larger) : width range ≤ width larger :=
  width_le_iff.mpr (Nat.le_trans h (le_pow_width larger))

/-- One bit less tells fewer numbers apart. -/
theorem pow_lt_of_width {range : Nat} : width range = 0 ∨ 2 ^ (width range - 1) < range := by
  rcases Nat.eq_zero_or_pos (width range) with h | h
  · exact .inl h
  · have hless : ¬ width range ≤ width range - 1 := by omega
    rw [width_le_iff] at hless
    exact .inr (Nat.lt_of_not_le hless)

end Bits

namespace Machine

/-- The width of a range that is counted in a word. -/
def width (range : BitVec 64) : Nat :=
  if range ≤ 1 then 0 else 64 - (range - 1).clz.toNat

theorem log2_eq_clz {x : BitVec 64} (h : x ≠ 0) : x.toNat.log2 + 1 = 64 - x.clz.toNat := by
  have hpos : x.toNat ≠ 0 := fun h0 => h (BitVec.eq_of_toNat_eq h0)
  have hlow : 2 ^ (63 - x.clz.toNat) ≤ x.toNat :=
    BitVec.two_pow_sub_clz_le_toNat_of_ne_zero (by decide) h
  have hhigh : x.toNat < 2 ^ (64 - x.clz.toNat) := BitVec.toNat_lt_two_pow_sub_clz
  have hsome : x.clz.toNat < 64 := by
    by_contra hall
    rw [show 64 - x.clz.toNat = 0 by omega] at hhigh
    omega
  have hlog : x.toNat.log2 = 63 - x.clz.toNat := by
    rw [Nat.log2_eq_iff hpos, show 63 - x.clz.toNat + 1 = 64 - x.clz.toNat by omega]
    exact ⟨hlow, hhigh⟩
  omega

/-- Leading zeros tell the width that the range has as a number. -/
theorem width_eq (range : BitVec 64) : width range = Bits.width range.toNat := by
  unfold width Bits.width
  have hone : range ≤ 1 ↔ range.toNat ≤ 1 := BitVec.le_def
  by_cases h : range.toNat ≤ 1
  · rw [if_pos (hone.mpr h), if_pos h]
  · have hpred : (range - 1).toNat = range.toNat - 1 := by
      have hlt := range.isLt
      rw [BitVec.toNat_sub, show (1 : BitVec 64).toNat = 1 from rfl]
      omega
    have hne : range - 1 ≠ 0 := by
      intro h0
      rw [h0] at hpred
      have : (0 : BitVec 64).toNat = 0 := rfl
      omega
    rw [if_neg (hone.not.mpr h), if_neg h, ← log2_eq_clz hne, hpred]

/-- A difference that is a word comes out right where words wrap around. -/
theorem toNat_ofInt_sub {a b : Int} (hle : b ≤ a) (hlt : a - b < 2 ^ 64) :
    ((BitVec.ofInt 64 a - BitVec.ofInt 64 b).toNat : Int) = a - b := by
  rw [BitVec.toNat_sub, BitVec.toNat_ofInt, BitVec.toNat_ofInt]
  omega

/-- The range of bounds, as words count it. -/
def range (lower upper : Int) : BitVec 64 :=
  BitVec.ofInt 64 upper - BitVec.ofInt 64 lower + 1

theorem toNat_range {lower upper : Int} (hle : lower ≤ upper) (hlt : upper - lower + 1 < 2 ^ 64) :
    ((range lower upper).toNat : Int) = upper - lower + 1 := by
  have hspan := toNat_ofInt_sub hle (by omega)
  rw [range, BitVec.toNat_add, show (1 : BitVec 64).toNat = 1 from rfl]
  omega

theorem width_range {lower upper : Int} (hle : lower ≤ upper) (hlt : upper - lower + 1 < 2 ^ 64) :
    width (range lower upper) = Bits.widthBetween lower upper := by
  have hrange := toNat_range hle hlt
  rw [width_eq, Bits.widthBetween_of_le hle hlt, ← hrange, Int.toNat_natCast]

end Machine

namespace Per

/-- An offset of the range is a number of its width. -/
theorem Encoding.toNat_constrained {value lower upper : Int} (hb : Read.Bounds lower upper)
    (hl : lower ≤ value) (hu : value ≤ upper) :
    (Bits.toNat (constrained value lower upper) : Int) = value - lower := by
  obtain ⟨-, -, hrange⟩ := hb
  have hword : (value - lower) % 2 ^ 64 = value - lower := Int.emod_eq_of_lt (by omega) (by omega)
  have hfits := Bits.le_pow_width (upper - lower + 1).toNat
  rw [constrained, number, Bits.toNat_ofNat, hword, Bits.widthBetween_of_le (by omega) hrange,
    Nat.mod_eq_of_lt (by omega)]
  omega

theorem WriteStep.after_concat (steps : List WriteStep) (step : WriteStep) :
    after (steps ++ [step]) = step.run (after steps) := by
  rw [after, List.foldl_append]
  rfl

/-- The bits that a write has put down, wherever it began. -/
theorem WriteStep.written_after (steps : List WriteStep) (step : WriteStep) :
    (after (steps ++ [step])).length = (after steps).length + step.encoding.length ∧
      ((Bits.ofOctets (after (steps ++ [step])).data.toList).drop (after steps).length).take
          step.encoding.length = step.encoding := by
  have hbefore : (after steps).Holds (encodings steps) := holds_foldl Writer.holds_empty steps
  have hafter := Writer.holds_run hbefore step
  obtain ⟨n, -, hbits⟩ := hafter.bits_eq
  rw [after_concat]
  refine ⟨by rw [hafter.length_eq, hbefore.length_eq, List.length_append], ?_⟩
  rw [hbits, hbefore.length_eq, List.append_assoc, List.drop_left, List.take_left]

end Per

/-- The width of a range is the least number of bits in which all its numbers fit, at most that of a word, and it
grows with the range. The offset of a number within bounds whose range is a word is written in just so many bits, and
these spell it without loss. -/
theorem Machine.width_least :
    (∀ range : BitVec 64,
      let bits := width range
      bits = Bits.width range.toNat ∧ range.toNat ≤ 2 ^ bits ∧ (∀ n < range.toNat, n < 2 ^ bits) ∧
        (∀ fewer, range.toNat ≤ 2 ^ fewer → bits ≤ fewer) ∧
        (bits = 0 ∨ 2 ^ (bits - 1) < range.toNat) ∧ bits ≤ 64) ∧
    (∀ range larger : BitVec 64, range ≤ larger → width range ≤ width larger) ∧
    ∀ (steps : List Per.WriteStep) (value lower upper : Int), Per.Read.Bounds lower upper →
      lower ≤ value → value ≤ upper →
        let before := Per.WriteStep.after steps
        let after := Per.WriteStep.after (steps ++ [.constrained value lower upper])
        let bits := width (range lower upper)
        ((range lower upper).toNat : Int) = upper - lower + 1 ∧
          ((BitVec.ofInt 64 value - BitVec.ofInt 64 lower).toNat : Int) = value - lower ∧
          after.length = before.length + bits ∧
          (Bits.toNat (((Bits.ofOctets after.data.toList).drop before.length).take bits) : Int) =
            value - lower := by
  refine ⟨fun range => ?_, fun range larger h => ?_, ?_⟩
  · have hle := Bits.le_pow_width range.toNat
    rw [width_eq]
    refine ⟨rfl, hle, fun n hn => Nat.lt_of_lt_of_le hn hle, fun fewer => Bits.width_le_iff.mpr,
      Bits.pow_lt_of_width, Bits.width_le_iff.mpr (Nat.le_of_lt range.isLt)⟩
  · rw [width_eq, width_eq]
    exact Bits.width_mono (BitVec.le_def.mp h)
  · intro steps value lower upper hb hl hu before after bits
    obtain ⟨hlength, hbits⟩ :=
      Per.WriteStep.written_after steps (.constrained value lower upper)
    have hle : lower ≤ upper := Int.le_trans hl hu
    have hwidth : (Per.WriteStep.constrained value lower upper).encoding.length = bits :=
      (Bits.length_ofNat _ _).trans (width_range hle hb.2.2).symm
    rw [hwidth] at hlength hbits
    refine ⟨toNat_range hle hb.2.2, toNat_ofInt_sub hl (by have := hb.2.2; omega), hlength, ?_⟩
    rw [hbits]
    exact Per.Encoding.toNat_constrained hb hl hu

theorem Machine.width_least_extremes :
    Per.Read.Bounds (-2 ^ 63) (2 ^ 63 - 2) ∧ width 256 ≤ width 257 ∧
      let after := Per.WriteStep.after
        ([.flag true] ++ [.constrained (2 ^ 63 - 2) (-2 ^ 63) (2 ^ 63 - 2)])
      after.length = 65 ∧
        (Bits.toNat (((Bits.ofOctets after.data.toList).drop 1).take 64) : Int) = 2 ^ 64 - 2 := by
  have hb : Per.Read.Bounds (-2 ^ 63) (2 ^ 63 - 2) := by decide
  have hbits : width (range (-2 ^ 63) (2 ^ 63 - 2)) = 64 := by decide
  have hbefore : (Per.WriteStep.after [.flag true]).length = 1 := rfl
  obtain ⟨-, hmono, hwritten⟩ := width_least
  obtain ⟨-, -, hlength, hvalue⟩ :=
    hwritten [.flag true] (2 ^ 63 - 2) (-2 ^ 63) (2 ^ 63 - 2) hb (by decide) (by decide)
  rw [hbits, hbefore] at hlength hvalue
  exact ⟨hb, hmono 256 257 (by decide), hlength, hvalue⟩

end V2x
