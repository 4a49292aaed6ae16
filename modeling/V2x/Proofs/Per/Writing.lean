import V2x.Per.Step

/-!
# What a writer has written

A writer is seen through the list of bits written to it. Each write appends its encoding to that list
(`holds_run`), wherever in an octet it begins, and leaves the bits before it alone.
-/

namespace V2x

namespace Bits

theorem ofNat_or_two_pow (octet : UInt8) {k : Nat} (hk : k < 8) :
    ofNat 8 (octet ||| UInt8.ofNat (2 ^ (7 - k))).toNat = (ofNat 8 octet.toNat).set k true := by
  have hpow : (UInt8.ofNat (2 ^ (7 - k))).toNat = 2 ^ (7 - k) := by
    rw [UInt8.toNat_ofNat']
    exact Nat.mod_eq_of_lt (Nat.pow_lt_pow_right (by decide) (by omega))
  refine List.ext_getElem? fun i => ?_
  by_cases hi : i < 8
  · rw [getElem?_ofNat _ hi, List.getElem?_set, UInt8.toNat_or, hpow, Nat.testBit_or,
      Nat.testBit_two_pow, length_ofNat, getElem?_ofNat _ hi]
    by_cases h : k = i
    · simp [h, hi]
    · have : ¬ 7 - k = 7 - i := by omega
      simp [h, this]
  · rw [List.getElem?_eq_none (by simpa using hi), List.getElem?_eq_none (by simpa using hi)]

theorem ofOctets_modify {k : Nat} (hk : k < 8) :
    ∀ {octets : Octets} {i : Nat}, i < octets.length →
      ofOctets (octets.modify i (· ||| UInt8.ofNat (2 ^ (7 - k)))) =
        (ofOctets octets).set (8 * i + k) true
  | [], i, h => absurd h (Nat.not_lt_zero i)
  | octet :: octets, 0, _ => by
    rw [List.modify_zero_cons, ofOctets_cons, ofOctets_cons, ofNat_or_two_pow octet hk,
      List.set_append_left _ _ (by simp; omega), Nat.mul_zero, Nat.zero_add]
  | octet :: octets, i + 1, h => by
    rw [List.modify_succ_cons, ofOctets_cons, ofOctets_cons,
      ofOctets_modify hk (Nat.lt_of_succ_lt_succ h), List.set_append_right _ _ (by simp; omega),
      length_ofNat, show 8 * (i + 1) + k - 8 = 8 * i + k by omega]

end Bits

namespace Per

namespace Writer

/-- `bits` have been written; the bits that fill up the last octet are zeros. -/
structure Holds (w : Writer) (bits : List Bool) : Prop where
  length_eq : w.length = bits.length
  bits_eq : ∃ n < 8, Bits.ofOctets w.data.toList = bits ++ List.replicate n false

theorem holds_empty : Holds {} [] :=
  ⟨rfl, 0, by decide, rfl⟩

theorem Holds.eight_mul_size {w : Writer} {bits : List Bool} {n : Nat}
    (h : w.Holds bits) (hn : Bits.ofOctets w.data.toList = bits ++ List.replicate n false) :
    8 * w.data.size = w.length + n := by
  have := congrArg List.length hn
  simp only [Bits.length_ofOctets, Array.length_toList, List.length_append,
    List.length_replicate] at this
  rw [this, h.length_eq]

theorem holds_push {w : Writer} {bits : List Bool} (h : w.Holds bits) (bit : Bool) :
    (w.push bit).Holds (bits ++ [bit]) := by
  obtain ⟨n, hn, hbits⟩ := h.bits_eq
  have hsize := h.eight_mul_size hbits
  -- the octets with room for one more bit, and one missing bit less
  have hroom : ∃ m < 8, ∃ data : Array UInt8,
      (if w.length % 8 = 0 then w.data.push 0 else w.data) = data ∧ 8 * data.size = w.length + 1 + m ∧
      Bits.ofOctets data.toList = bits ++ false :: List.replicate m false := by
    by_cases h0 : w.length % 8 = 0
    · obtain rfl : n = 0 := by omega
      refine ⟨7, by decide, w.data.push 0, if_pos h0, by rw [Array.size_push]; omega, ?_⟩
      rw [Array.toList_push, Bits.ofOctets_append, hbits, List.replicate_zero, List.append_nil]
      rfl
    · obtain ⟨m, rfl⟩ : ∃ m, n = m + 1 := ⟨n - 1, by omega⟩
      exact ⟨m, by omega, w.data, if_neg h0, by omega, hbits⟩
  obtain ⟨m, hm, data, hdata, hdsize, hdbits⟩ := hroom
  refine ⟨by simp [push, h.length_eq], m, hm, ?_⟩
  unfold push
  rw [hdata]
  cases bit with
  | false => simpa using hdbits
  | true =>
    have hlast : data.size - 1 < data.toList.length := by rw [Array.length_toList]; omega
    have hplace : 8 * (data.size - 1) + w.length % 8 = bits.length := by
      rw [← h.length_eq]
      omega
    simp only [if_true, Array.toList_modify]
    rw [Bits.ofOctets_modify (Nat.mod_lt _ (by decide)) hlast, hplace, hdbits]
    simp

theorem holds_number {w : Writer} {bits : List Bool} (h : w.Holds bits) (width n : Nat) :
    (w.number width n).Holds (bits ++ Encoding.number width n) := by
  induction width generalizing w bits with
  | zero => simpa [number, Encoding.number, Bits.ofNat] using h
  | succ width ih =>
    have := ih (holds_push h (n.testBit width))
    rwa [List.append_assoc] at this

theorem holds_lengthDeterminant {w : Writer} {bits : List Bool} (h : w.Holds bits) (n : Nat) :
    (w.lengthDeterminant n).Holds (bits ++ Encoding.length n) := by
  unfold lengthDeterminant Encoding.length
  split
  · exact holds_number h 8 n
  · have := holds_number (holds_number h 2 2) 14 n
    rwa [List.append_assoc] at this

theorem holds_octets {w : Writer} {bits : List Bool} (h : w.Holds bits) (data : Octets) :
    (w.octets data).Holds (bits ++ Encoding.octets data) := by
  unfold octets Encoding.octets
  induction data generalizing w bits with
  | nil => simpa using h
  | cons octet data ih =>
    have := ih (holds_number h 8 octet.toNat)
    rwa [List.append_assoc] at this

theorem holds_run {w : Writer} {bits : List Bool} (h : w.Holds bits) (step : WriteStep) :
    (step.run w).Holds (bits ++ step.encoding) := by
  cases step with
  | bits value width => exact holds_number h width value
  | flag b => exact holds_push h b
  | constrained value lower upper => exact holds_number h _ _
  | index value roots extensible =>
    cases extensible with
    | false => exact holds_number h _ _
    | true =>
      have := holds_number (holds_push h false) (Bits.width roots) value
      rwa [List.append_assoc] at this
  | length n => exact holds_lengthDeterminant h n
  | octets data => exact holds_octets h data
  | openType data =>
    have := holds_octets (holds_lengthDeterminant h data.length) data
    rwa [List.append_assoc] at this

end Writer

end Per

end V2x
