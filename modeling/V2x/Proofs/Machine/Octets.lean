import V2x.Proofs.Machine.Reader
import V2x.Proofs.Per.Runs

/-!
# Octets in words

Octets come out alike and the reader with them, whether they are taken over whole or read bit by bit, each as a
number of its own (`octets_one_by_one`). A count whose bits no word can count stops the read before it has
taken anything.
-/

namespace V2x.Machine.Reading

open Per (Reader Read ReadStep)

theorem octets_of_count {count : Nat} (h : 2 ^ 64 ≤ 8 * count) (r : Reader) :
    octets count r = .error (.trap .unsigned) r := by
  have hleaves : ¬ (0 ≤ (8 * count : Int) ∧ (8 * count : Int) < 2 ^ 64) := by omega
  rw [octets, unsigned, check, if_neg hleaves]
  rfl

theorem octets_untrapped {count : Nat} (h : 8 * count < 2 ^ 64) {r : Reader} (hr : r.Inside) :
    octets count r = untrapped (Read.octets count r) :=
  (follows_octets h).eq_untrapped hr

theorem octetsFrom_untrapped (count : Nat) {r : Reader} (hr : r.Inside) :
    octetsFrom count r = untrapped (Read.unalignedOctets count r) :=
  (follows_octetsFrom count).eq_untrapped hr

/-- Any number of octets is read from any place just if their bits are there. Then they are the numbers that eight
bits give each time, and both ways lead to the same place, be it one where an octet of the data begins or not.
If not, nothing is taken: bits are missing, or are more than a word can count. Places are words themselves,
so the bits of the data have to be a word's number. -/
theorem octets_one_by_one {data : Octets} (hdata : 8 * data.length < 2 ^ 64) {position : Nat}
    (hposition : position ≤ 8 * data.length) (count : Nat) :
    let r := (Reader.ofOctets data).advance position
    (8 * count < 2 ^ 64 → octets count r = untrapped (Read.octets count r)) ∧
      if 8 * count ≤ 8 * data.length - position then
        ∃ taken : Octets,
          octets count r = .ok taken (r.advance (8 * count)) ∧
          octetsFrom count r = .ok taken (r.advance (8 * count)) ∧
          ReadStep.runAll (List.replicate count (.bits 8)) r =
            taken.mapIdx fun i octet => ⟨.ok (.number octet.toNat), r.advance (8 * (i + 1))⟩
      else if 8 * count < 2 ^ 64 then
        octets count r = .error (.fault (.incomplete (8 * count) (8 * data.length - position))) r
      else
        octets count r = .error (.trap .unsigned) r := by
  intro r
  have hinside : r.Inside := Reader.inside_advance_ofOctets hposition
  have hremaining : r.remaining = 8 * data.length - position :=
    Reader.remaining_advance_ofOctets data position
  rw [← hremaining]
  refine ⟨fun hcount => octets_untrapped hcount hinside, ?_⟩
  split
  · next hcount =>
    have hbits := Read.bits_of_le hcount
    have hwhole : Read.octets count r =
        .ok (Bits.toOctets (r.rest.take (8 * count))) (r.advance (8 * count)) := by
      rw [Read.octets_eq, EStateM.bind_of_ok hbits]
      rfl
    refine ⟨_, ?_, ?_, ReadStep.runAll_octets hcount⟩
    · rw [octets_untrapped (by omega) hinside, hwhole]
      rfl
    · rw [octetsFrom_untrapped count hinside, Read.unalignedOctets_of_le hcount]
      rfl
  split
  · next hcount hword =>
    rw [octets_untrapped hword hinside, Read.octets_of_lt (Nat.lt_of_not_le hcount)]
    rfl
  · next hword => exact octets_of_count (Nat.le_of_not_lt hword) r

/-- From the fourth bit of an octet on: one octet more is there, but not two, and of 2 ^ 61 not even the number
of bits is a word. -/
theorem octets_one_by_one_fourth :
    let r := (Reader.ofOctets [0xab, 0xcd]).advance 4
    octets 1 r = .ok [0xbc] (r.advance 8) ∧ octets 2 r = .error (.fault (.incomplete 16 12)) r ∧
      octets (2 ^ 61) r = .error (.trap .unsigned) r := by
  intro r
  have hreads := @octets_one_by_one [0xab, 0xcd] (by decide) 4 (by decide)
  obtain ⟨hone, -⟩ := hreads 1
  obtain ⟨-, htwo⟩ := hreads 2
  obtain ⟨-, hmany⟩ := hreads (2 ^ 61)
  rw [if_neg (by decide)] at htwo hmany
  rw [if_pos (by decide)] at htwo
  rw [if_neg (by decide)] at hmany
  exact ⟨hone (by decide), htwo, hmany⟩

end V2x.Machine.Reading
