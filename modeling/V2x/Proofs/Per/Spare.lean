import V2x.Proofs.Per.RoundTrip

/-!
# Codes to spare

A number that is one of a range is read from the fewest bits that tell as many numbers apart. Unless the range
is a power of two these bits have codes to spare, and a spare code is read like any other: as the number it
spells, which lies outside the bounds (`constrained_ok`) or counts as an addition (`index_ok`).
-/

namespace V2x

namespace Bits

variable {range : Nat}

theorem pow_width (k : Nat) : 2 ^ width (2 ^ k) = 2 ^ k := by
  refine Nat.le_antisymm (Nat.pow_le_pow_right (by decide) ?_) (le_pow_width _)
  exact width_le_iff.mpr (Nat.le_refl _)

theorem lt_pow_width (h : ¬ ∃ k, range = 2 ^ k) : range < 2 ^ width range :=
  Nat.lt_of_le_of_ne (le_pow_width range) fun heq => h ⟨_, heq⟩

theorem toNat_take_lt (n : Nat) (bits : List Bool) : toNat (bits.take n) < 2 ^ n :=
  Nat.lt_of_lt_of_le (toNat_lt _) (Nat.pow_le_pow_right (by decide) (List.length_take_le n bits))

end Bits

namespace Per

namespace Reader

/-- The bits that come next spell none of the `range` numbers that they are there to tell apart. -/
def Spare (r : Reader) (range : Nat) : Prop :=
  range ≤ Bits.toNat (r.rest.take (Bits.width range))

instance (r : Reader) (range : Nat) : Decidable (r.Spare range) :=
  inferInstanceAs (Decidable (_ ≤ _))

/-- The type is extensible, and its extension bit, which comes next, is set. -/
def Extended (r : Reader) (extensible : Bool) : Prop :=
  extensible = true ∧ r.rest.head? = some true

instance (r : Reader) (extensible : Bool) : Decidable (r.Extended extensible) :=
  inferInstanceAs (Decidable (_ ∧ _))

theorem not_spare_pow (r : Reader) (k : Nat) : ¬ r.Spare (2 ^ k) := by
  unfold Spare
  have hlt := Bits.toNat_take_lt (Bits.width (2 ^ k)) r.rest
  rw [Bits.pow_width] at hlt
  exact Nat.not_le.mpr hlt

end Reader

namespace Read

variable {r r' : Reader}

/-! ## What a value says about the bits -/

theorem number_ok {width n : Nat} (h : number width r = .ok n r') :
    n = Bits.toNat (r.rest.take width) ∧ r' = r.advance width := by
  rcases Nat.lt_or_ge r.remaining width with hlt | hle
  · rw [number, EStateM.bind_of_error (bits_of_lt hlt)] at h
    cases h
  · rw [number_of_le hle] at h
    cases h
    exact ⟨rfl, rfl⟩

theorem extensionBit_ok {extensible b : Bool} (h : extensionBit extensible r = .ok b r') :
    (b = true ↔ r.Extended extensible) ∧ r' = r.advance extensible.toNat := by
  cases extensible with
  | false =>
    cases h
    exact ⟨by simp [Reader.Extended], rfl⟩
  | true =>
    cases hrest : r.rest with
    | nil =>
      have hlt : r.remaining < 1 := by simp [← Reader.length_rest, hrest]
      have herror : extensionBit true r = .error (.incomplete 1 r.remaining) r :=
        EStateM.bind_of_error (bits_of_lt hlt) _
      rw [herror] at h
      cases h
    | cons bit tail =>
      have hok : extensionBit true r = .ok bit (r.advance 1) := finds_flag bit r tail hrest
      rw [hok] at h
      cases h
      exact ⟨by simp [Reader.Extended, hrest], rfl⟩

/-- Offsets from `lower` go around the words once at most, and so do not come back to `upper`. -/
theorem bmod_within_iff {lower upper : Int} (hb : Bounds lower upper) (hle : lower ≤ upper)
    {offset : Nat} (hoffset : offset < 2 ^ 64) :
    (lower ≤ (lower + offset).bmod (2 ^ 64) ∧ (lower + offset).bmod (2 ^ 64) ≤ upper) ↔
      offset < (upper - lower + 1).toNat := by
  obtain ⟨hlower, hupper, hrange⟩ := hb
  by_cases hword : lower + offset < 2 ^ 63
  · rw [Int.bmod_eq_of_le (by omega) (by omega)]
    omega
  · have hround : (lower + offset).bmod (2 ^ 64) = lower + offset - 2 ^ 64 := by
      rw [← Int.sub_bmod_right]
      exact Int.bmod_eq_of_le (by omega) (by omega)
    rw [hround]
    omega

/-- A constrained number lies within its bounds unless its code is to spare. -/
theorem constrained_ok {lower upper v : Int} (hb : Bounds lower upper) (hle : lower ≤ upper)
    (h : constrained lower upper r = .ok v r') :
    lower ≤ v ∧ v ≤ upper ↔ ¬ r.Spare (upper - lower + 1).toNat := by
  obtain ⟨offset, t, hoffset, hv⟩ := EStateM.exists_of_bind_ok h
  cases hv
  obtain ⟨hvalue, -⟩ := number_ok hoffset
  rw [Bits.widthBetween_of_le hle hb.2.2] at hvalue
  have hwidth : Bits.width (upper - lower + 1).toNat ≤ 64 := by
    have := hb.2.2
    exact Bits.width_le_iff.mpr (by omega)
  have hlt : offset < 2 ^ 64 := by
    rw [hvalue]
    exact Nat.lt_of_lt_of_le (Bits.toNat_take_lt _ _) (Nat.pow_le_pow_right (by decide) hwidth)
  rw [bmod_within_iff hb hle hlt, hvalue, Reader.Spare, Nat.not_le]

theorem word_constrained {lower upper v : Int} (h : constrained lower upper r = .ok v r') :
    -2 ^ 63 ≤ v ∧ v < 2 ^ 63 := by
  obtain ⟨offset, t, -, hv⟩ := EStateM.exists_of_bind_ok h
  cases hv
  exact ⟨Int.le_bmod (by decide), Int.bmod_lt (by decide)⟩

theorem size_ok {lower upper count : Nat} (hb : Bounds lower upper) (hle : lower ≤ upper)
    (h : size lower upper r = .ok count r') :
    lower ≤ count ∧ count ≤ upper ↔ ¬ r.Spare (upper - lower + 1 : Int).toNat := by
  obtain ⟨v, t, hread, hcount⟩ := EStateM.exists_of_bind_ok h
  cases hcount
  have hword := word_constrained hread
  rw [← constrained_ok hb (Int.ofNat_le.mpr hle) hread]
  obtain ⟨-, hupper, -⟩ := hb
  omega

theorem extensibleInteger_ok {field : String} {lower upper v : Int} (hb : Bounds lower upper)
    (hle : lower ≤ upper) (hroot : r.rest.head? = some false)
    (h : extensibleInteger field lower upper r = .ok v r') :
    lower ≤ v ∧ v ≤ upper ↔ ¬ (r.advance 1).Spare (upper - lower + 1).toNat := by
  obtain ⟨b, t, hflag, hread⟩ := EStateM.exists_of_bind_ok h
  have hextension : extensionBit true r = .ok b t := hflag
  obtain ⟨hbit, rfl⟩ := extensionBit_ok hextension
  cases b with
  | false => exact constrained_ok hb hle hread
  | true =>
    -- the bit that has been read is the one that is cleared
    have hset := (hbit.mp rfl).2
    rw [hroot] at hset
    cases hset

/-- An index counts as a root unless the extension bit is set or the code is to spare. -/
theorem index_ok {roots v : Nat} {extensible : Bool} (h : index roots extensible r = .ok v r') :
    v < roots ↔ ¬ r.Extended extensible ∧ ¬ (r.advance extensible.toNat).Spare roots := by
  obtain ⟨b, t, hbit, hread⟩ := EStateM.exists_of_bind_ok h
  obtain ⟨hb, rfl⟩ := extensionBit_ok hbit
  cases b with
  | false =>
    obtain ⟨rfl, -⟩ := number_ok hread
    have hroot : ¬ r.Extended extensible := fun hset => nomatch hb.mpr hset
    rw [and_iff_right hroot, Reader.Spare, Nat.not_le]
  | true =>
    obtain ⟨addition, t, -, hsum⟩ := EStateM.exists_of_bind_ok hread
    have hle : roots ≤ v := by
      split at hsum
      · cases hsum
      · cases hsum
        exact Nat.le_add_right _ _
    have hset := hb.mp rfl
    exact ⟨fun hlt => absurd hlt (Nat.not_lt.mpr hle), fun hroot => absurd hset hroot.1⟩

/-! ## Enough bits are read without a fault -/

theorem extensionBit_of_le {extensible : Bool} (h : ¬ r.Extended extensible)
    (hle : extensible.toNat ≤ r.remaining) :
    extensionBit extensible r = .ok false (r.advance extensible.toNat) := by
  cases extensible with
  | false => rfl
  | true =>
    cases hrest : r.rest with
    | nil =>
      rw [← Reader.length_rest, hrest] at hle
      exact absurd hle (by decide)
    | cons bit tail =>
      have hbit : bit = false := by simpa [Reader.Extended, hrest] using h
      rw [hbit] at hrest
      exact finds_flag false r tail hrest

theorem constrained_of_le {lower upper : Int} (hb : Bounds lower upper) (hle : lower ≤ upper)
    (h : Bits.width (upper - lower + 1).toNat ≤ r.remaining) :
    ∃ v, constrained lower upper r =
      .ok v (r.advance (Bits.width (upper - lower + 1).toNat)) := by
  rw [← Bits.widthBetween_of_le hle hb.2.2] at h ⊢
  exact ⟨_, EStateM.bind_of_ok (number_of_le h) _⟩

theorem index_of_le {roots : Nat} {extensible : Bool} (h : ¬ r.Extended extensible)
    (hle : extensible.toNat + Bits.width roots ≤ r.remaining) :
    ∃ v, index roots extensible r = .ok v (r.advance (extensible.toNat + Bits.width roots)) := by
  have hbit := extensionBit_of_le h (by omega)
  have hroot : Bits.width roots ≤ (r.advance extensible.toNat).remaining := by
    rw [Reader.remaining_advance]
    omega
  have hnumber := number_of_le hroot
  rw [Reader.advance_advance] at hnumber
  exact ⟨_, (EStateM.bind_of_ok hbit _).trans hnumber⟩

/-! ## Spare codes do come -/

theorem exists_index_spare {roots : Nat} (h : ¬ ∃ k, roots = 2 ^ k) (extensible : Bool) :
    ∃ r r', index roots extensible r = .ok roots r' ∧ ¬ r.Extended extensible := by
  obtain ⟨n, -, hbits⟩ := WriteStep.ofOctets_write [.index roots roots extensible]
  rw [WriteStep.encodings_cons, WriteStep.encodings_nil, List.append_nil, WriteStep.encoding,
    ← Reader.rest_ofOctets] at hbits
  refine ⟨_, _, finds_index_code (Bits.lt_pow_width h) extensible _ _ hbits, ?_⟩
  cases extensible <;> simp [Reader.Extended, hbits, Encoding.index]

theorem exists_constrained_spare {lower upper : Int} (hb : Bounds lower upper) (hle : lower ≤ upper)
    (h : ¬ ∃ k, (upper - lower + 1).toNat = 2 ^ k) :
    ∃ r v r', constrained lower upper r = .ok v r' ∧ ¬ (lower ≤ v ∧ v ≤ upper) := by
  -- without an extension bit an index is read just like an offset
  obtain ⟨r, r', hread, -⟩ := exists_index_spare h false
  have hnumber : number (Bits.widthBetween lower upper) r = .ok (upper - lower + 1).toNat r' := by
    rw [Bits.widthBetween_of_le hle hb.2.2]
    exact hread
  refine ⟨r, _, r', EStateM.bind_of_ok hnumber _, ?_⟩
  rw [bmod_within_iff hb hle (by have := hb.2.2; omega)]
  exact Nat.lt_irrefl _

/-- The bounds are kept to by all that is read just if they leave no code to spare. -/
theorem constrained_within_iff {lower upper : Int} (hb : Bounds lower upper) (hle : lower ≤ upper) :
    (∀ r v r', constrained lower upper r = .ok v r' → lower ≤ v ∧ v ≤ upper) ↔
      ∃ k, (upper - lower + 1).toNat = 2 ^ k := by
  constructor
  · intro hwithin
    refine Classical.byContradiction fun hpow => ?_
    obtain ⟨r, v, r', hread, hout⟩ := exists_constrained_spare hb hle hpow
    exact hout (hwithin r v r' hread)
  · rintro ⟨k, hk⟩ r v r' hread
    rw [constrained_ok hb hle hread, hk]
    exact r.not_spare_pow k

/-- An index tells roots from additions just if the roots leave no code to spare. -/
theorem index_lt_iff {roots : Nat} (extensible : Bool) :
    (∀ r v r', index roots extensible r = .ok v r' → (v < roots ↔ ¬ r.Extended extensible)) ↔
      ∃ k, roots = 2 ^ k := by
  constructor
  · intro htold
    refine Classical.byContradiction fun hpow => ?_
    obtain ⟨r, r', hread, hroot⟩ := exists_index_spare hpow extensible
    exact Nat.lt_irrefl roots ((htold r roots r' hread).mpr hroot)
  · rintro ⟨k, rfl⟩ r v r' hread
    rw [index_ok hread]
    exact and_iff_left (Reader.not_spare_pow _ k)

end Read

end Per

end V2x
