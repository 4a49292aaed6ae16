import V2x.Per.Reader
import V2x.Proofs.Outcome

/-!
# What a reader has before it

A reader is seen through the list of bits still to be read. Each read takes a front of that list:
`bits_eq`, `octets_eq` and `rest_eq` say which, so that nothing after them speaks of octets and places.
-/

namespace V2x.Per

namespace Reader

@[simp] theorem length_rest (r : Reader) : r.rest.length = r.remaining := by
  simp [rest, remaining]

@[simp] theorem rest_ofOctets (data : Octets) : (ofOctets data).rest = Bits.ofOctets data := by
  simp [rest, ofOctets]

@[simp] theorem position_ofOctets (data : Octets) : (ofOctets data).position = 0 := rfl

@[simp] theorem position_advance (r : Reader) (n : Nat) :
    (r.advance n).position = r.position + n := rfl

@[simp] theorem rest_advance (r : Reader) (n : Nat) : (r.advance n).rest = r.rest.drop n := by
  simp [rest, advance]

theorem rest_advance_of_append {r : Reader} {bits tail : List Bool} (h : r.rest = bits ++ tail) :
    (r.advance bits.length).rest = tail := by
  rw [rest_advance, h, List.drop_left]

@[simp] theorem remaining_advance (r : Reader) (n : Nat) :
    (r.advance n).remaining = r.remaining - n := by
  simp only [remaining, advance]
  omega

theorem remaining_ofOctets (data : Octets) : (ofOctets data).remaining = 8 * data.length := by
  rw [← length_rest, rest_ofOctets, Bits.length_ofOctets]

theorem rest_advance_ofOctets (data : Octets) (n : Nat) :
    ((ofOctets data).advance n).rest = (Bits.ofOctets data).drop n := by
  rw [rest_advance, rest_ofOctets]

theorem remaining_advance_ofOctets (data : Octets) (n : Nat) :
    ((ofOctets data).advance n).remaining = 8 * data.length - n := by
  rw [remaining_advance, remaining_ofOctets]

theorem consumedOctets_advance (data : Octets) (n : Nat) :
    ((ofOctets data).advance n).consumedOctets = (n + 7) / 8 := by
  rw [consumedOctets, position_advance, position_ofOctets, Nat.zero_add]

@[simp] theorem advance_zero (r : Reader) : r.advance 0 = r := rfl

@[simp] theorem advance_advance (r : Reader) (m n : Nat) :
    (r.advance m).advance n = r.advance (m + n) := by
  simp only [advance, Nat.add_assoc]

theorem advance_isPrefix {r t : Reader} (h : t.rest <+: r.rest) {k : Nat} (hk : k ≤ t.remaining) :
    (t.advance k).rest <+: (r.advance k).rest := by
  obtain ⟨beyond, hrest⟩ := h
  rw [rest_advance, rest_advance, ← hrest, List.drop_append_of_le_length (by rwa [length_rest])]
  exact List.prefix_append _ _

/-- The bits at the places ahead are the front of the rest. -/
theorem map_bitAt {r : Reader} {n : Nat} (h : n ≤ r.remaining) :
    (List.range' r.position n).map r.bitAt = r.rest.take n := by
  refine List.ext_getElem? fun i => ?_
  by_cases hi : i < n
  · have hlen : r.position + i < 8 * r.data.toList.length := by
      rw [remaining] at h
      rw [Array.length_toList]
      omega
    rw [List.getElem?_take_of_lt hi, rest, List.getElem?_drop, Bits.getElem?_ofOctets hlen,
      List.getElem?_map, List.getElem?_range' hi]
    simp [bitAt]
  · rw [List.getElem?_eq_none (by simpa using hi), List.getElem?_eq_none (by simp; omega)]

end Reader

namespace Read

theorem bits_of_le {n : Nat} {r : Reader} (h : n ≤ r.remaining) :
    bits n r = .ok (r.rest.take n) (r.advance n) := by
  rw [bits, if_pos h, Reader.map_bitAt h]

theorem bits_of_lt {n : Nat} {r : Reader} (h : r.remaining < n) :
    bits n r = .error (.incomplete n r.remaining) r := by
  rw [bits, if_neg (Nat.not_le.mpr h)]

theorem number_of_le {width : Nat} {r : Reader} (h : width ≤ r.remaining) :
    number width r = .ok (Bits.toNat (r.rest.take width)) (r.advance width) :=
  EStateM.bind_of_ok (bits_of_le h) _

theorem unalignedOctets_of_le {count : Nat} {r : Reader} (h : 8 * count ≤ r.remaining) :
    unalignedOctets count r =
      .ok (Bits.toOctets (r.rest.take (8 * count))) (r.advance (8 * count)) := by
  induction count generalizing r with
  | zero => simp [unalignedOctets, Bits.toOctets]
  | succ count ih =>
    have hmore := ih (r := r.advance 8) (by rw [Reader.remaining_advance]; omega)
    have htake : (r.rest.take 8).length = 8 := by
      rw [List.length_take, Reader.length_rest]
      omega
    have hoctet : UInt8.ofNat (Bits.toNat (r.rest.take 8)) = Bits.toOctet (r.rest.take 8) := by
      rw [Bits.toOctet, htake, Nat.sub_self, Nat.pow_zero, Nat.mul_one]
    unfold unalignedOctets
    rw [EStateM.bind_of_ok (number_of_le (by omega)), EStateM.bind_of_ok hmore, EStateM.pure_eq,
      hoctet, Reader.advance_advance, Reader.rest_advance,
      show 8 * (count + 1) = 8 + 8 * count by omega, List.take_add,
      Bits.toOctets_append_eight htake]

/-- Octets come out alike whether or not they are octets of the data. -/
theorem octets_eq (count : Nat) : octets count = do return Bits.toOctets (← bits (8 * count)) := by
  funext r
  rcases Nat.lt_or_ge r.remaining (8 * count) with h | h
  · rw [EStateM.bind_of_error (bits_of_lt h), octets, if_neg (Nat.not_le.mpr h)]
  · rw [EStateM.bind_of_ok (bits_of_le h), EStateM.pure_eq, octets, if_pos h]
    by_cases haligned : r.position % 8 = 0
    · have hstart : r.position = 8 * (r.position / 8) := by omega
      rw [if_pos haligned, Array.toList_extract, List.extract_eq_take_drop,
        Nat.add_sub_cancel_left, Reader.rest, hstart, Bits.drop_ofOctets, Bits.take_ofOctets,
        Bits.toOctets_ofOctets, ← hstart]
    · rw [if_neg haligned, unalignedOctets_of_le h]

theorem octets_of_le {count : Nat} {r : Reader} (h : 8 * count ≤ r.remaining) :
    ∃ data, octets count r = .ok data (r.advance (8 * count)) := by
  rw [octets_eq, EStateM.bind_of_ok (bits_of_le h)]
  exact ⟨_, rfl⟩

theorem octets_of_lt {count : Nat} {r : Reader} (h : r.remaining < 8 * count) :
    octets count r = .error (.incomplete (8 * count) r.remaining) r := by
  rw [octets_eq, EStateM.bind_of_error (bits_of_lt h)]

theorem rest_eq (r : Reader) : rest r = .ok (Bits.toOctets r.rest) (r.advance r.remaining) := by
  have hwhole := unalignedOctets_of_le (r := r) (Nat.mul_div_le r.remaining 8)
  have hlen : (r.rest.take (8 * (r.remaining / 8))).length = 8 * (r.remaining / 8) := by
    rw [List.length_take, Reader.length_rest]
    omega
  have hsplit := Bits.toOctets_append hlen (r.rest.drop (8 * (r.remaining / 8)))
  rw [List.take_append_drop] at hsplit
  generalize ha : r.advance (8 * (r.remaining / 8)) = a at *
  have htail : a.remaining = r.remaining % 8 := by
    rw [← ha, Reader.remaining_advance]
    omega
  have hrest : a.rest = r.rest.drop (8 * (r.remaining / 8)) := by rw [← ha, Reader.rest_advance]
  have hdone : a.advance a.remaining = r.advance r.remaining := by
    rw [← ha, Reader.advance_advance, Reader.remaining_advance]
    congr 1
    omega
  rw [← hrest] at hsplit
  refine (EStateM.bind_of_ok hwhole _).trans ?_
  show (if a.remaining = 0 then (pure _ : Read Octets) else _) a = _
  rw [hsplit, ← hdone]
  by_cases h0 : a.remaining = 0
  · rw [if_pos h0, List.eq_nil_of_length_eq_zero ((Reader.length_rest a).trans h0), h0]
    simp [Bits.toOctets]
  · have hne : a.rest ≠ [] := fun h => h0 (by rw [← Reader.length_rest, h]; rfl)
    have hlt : a.rest.length < 8 := by rw [Reader.length_rest, htail]; omega
    rw [if_neg h0, EStateM.bind_of_ok (number_of_le (Nat.le_refl _)), EStateM.pure_eq,
      Bits.toOctets_of_length_lt hne hlt, Bits.toOctet, ← Reader.length_rest a, List.take_length]

end Read

end V2x.Per
