import V2x.Per.Step
import V2x.Proofs.Per.Forms
import V2x.Proofs.Per.View

/-!
# Reading what has been encoded

A read finds a value in an encoding if it takes just the bits of the encoding and gives the value,
whatever bits come after them. Each read finds the values that the encoding of the same name encodes,
in any of its forms, and a sequence of reads finds its values in the concatenation. What a form tells that
no value can be is refused right behind it.
-/

namespace V2x.Per

/-- From any reader that has `bits` next, the read takes just these and gives `a`. -/
def Read.Finds {α : Type} (read : Read α) (bits : List Bool) (a : α) : Prop :=
  ∀ (r : Reader) (tail : List Bool), r.rest = bits ++ tail →
    read r = .ok a (r.advance bits.length)

/-- From any reader that has `bits` next, the read takes just these and fails. -/
def Read.Refuses {α : Type} (read : Read α) (bits : List Bool) (fault : Fault) : Prop :=
  ∀ (r : Reader) (tail : List Bool), r.rest = bits ++ tail →
    read r = .error fault (r.advance bits.length)

/-- Octets whose number a length determinant can tell. -/
abbrev Short := { data : Octets // data.length < 16384 }

namespace Read

variable {α β : Type}

theorem finds_pure (a : α) : (pure a : Read α).Finds [] a := fun _ _ _ => rfl

theorem Finds.bind {read : Read α} {next : α → Read β} {bits more : List Bool} {a : α} {b : β}
    (h : read.Finds bits a) (hnext : (next a).Finds more b) :
    (read >>= next).Finds (bits ++ more) b := by
  intro r tail hr
  rw [List.append_assoc] at hr
  have hrest := Reader.rest_advance_of_append hr
  rw [EStateM.bind_of_ok (h r _ hr), hnext _ tail hrest, Reader.advance_advance, List.length_append]

theorem Finds.map {read : Read α} {bits : List Bool} {a : α} (h : read.Finds bits a) (f : α → β) :
    (do return f (← read) : Read β).Finds bits (f a) := by
  have hpure : (pure (f a) : Read β).Finds [] (f a) := finds_pure (f a)
  rw [← List.append_nil bits]
  exact h.bind hpure

theorem Finds.refuses {read : Read α} {next : α → Read β} {bits more : List Bool} {a : α}
    {fault : Fault} (h : read.Finds bits a) (hnext : (next a).Refuses more fault) :
    (read >>= next).Refuses (bits ++ more) fault := by
  intro r tail hr
  rw [List.append_assoc] at hr
  have hrest := Reader.rest_advance_of_append hr
  rw [EStateM.bind_of_ok (h r _ hr), hnext _ tail hrest, Reader.advance_advance, List.length_append]

theorem Finds.throws {read : Read α} {next : α → Read β} {bits : List Bool} {a : α} {fault : Fault}
    (h : read.Finds bits a) (hnext : next a = throw fault) : (read >>= next).Refuses bits fault := by
  intro r tail hr
  rw [EStateM.bind_of_ok (h r tail hr), hnext]
  rfl

theorem finds_bits (b : List Bool) : (bits b.length).Finds b b := by
  intro r tail hr
  have hlen : b.length ≤ r.remaining := by
    rw [← Reader.length_rest, hr, List.length_append]
    omega
  rw [bits_of_le hlen, hr, List.take_left]

/-- A number that is too large has lost its high bits. -/
theorem finds_number_mod (width n : Nat) :
    (number width).Finds (Encoding.number width n) (n % 2 ^ width) := by
  have := (finds_bits (Bits.ofNat width n)).map Bits.toNat
  rwa [Bits.length_ofNat, Bits.toNat_ofNat] at this

theorem finds_number {width n : Nat} (h : n < 2 ^ width) :
    (number width).Finds (Encoding.number width n) n := by
  have := finds_number_mod width n
  rwa [Nat.mod_eq_of_lt h] at this

theorem finds_flag (b : Bool) : flag.Finds (Encoding.flag b) b :=
  (finds_bits [b]).map fun bits => bits.headD false

theorem finds_extensionBit_false (extensible : Bool) :
    (extensionBit extensible).Finds (if extensible then [false] else []) false := by
  cases extensible with
  | false => exact finds_pure false
  | true => exact finds_flag false

/-- What the bounds of a constrained number have to be: signed words whose range is a word. -/
def Bounds (lower upper : Int) : Prop :=
  -2 ^ 63 ≤ lower ∧ upper < 2 ^ 63 ∧ upper - lower + 1 < 2 ^ 64

instance (lower upper : Int) : Decidable (Bounds lower upper) :=
  inferInstanceAs (Decidable (_ ∧ _ ∧ _))

theorem finds_constrained {value lower upper : Int} (hb : Bounds lower upper)
    (hl : lower ≤ value) (hu : value ≤ upper) :
    (constrained lower upper).Finds (Encoding.constrained value lower upper) value := by
  obtain ⟨hlower, hupper, hrange⟩ := hb
  have hword : ((value - lower) % 2 ^ 64).toNat = (value - lower).toNat := by
    rw [Int.emod_eq_of_lt (by omega) (by omega)]
  have hwidth : (value - lower).toNat < 2 ^ Bits.widthBetween lower upper := by
    have := Bits.le_pow_width (upper - lower + 1).toNat
    rw [Bits.widthBetween_of_le (by omega) hrange]
    omega
  have hvalue : (lower + ((value - lower).toNat : Int)).bmod (2 ^ 64) = value := by
    rw [Int.toNat_of_nonneg (by omega), show lower + (value - lower) = value by omega]
    exact Int.bmod_eq_of_le (by omega) (by omega)
  have := (finds_number hwidth).map fun offset : Nat => (lower + (offset : Int)).bmod (2 ^ 64)
  rw [hvalue] at this
  rwa [Encoding.constrained, hword]

/-- Any index that fits is found, be it that of a root or not. -/
theorem finds_index_code {value roots : Nat} (h : value < 2 ^ Bits.width roots) (extensible : Bool) :
    (index roots extensible).Finds (Encoding.index value roots extensible) value :=
  (finds_extensionBit_false extensible).bind (finds_number h)

theorem finds_index {value roots : Nat} (h : value < roots) (extensible : Bool) :
    (index roots extensible).Finds (Encoding.index value roots extensible) value :=
  finds_index_code (Nat.lt_of_lt_of_le h (Bits.le_pow_width roots)) extensible

theorem finds_length_of_tells (field : String) {bits : List Bool} {n : Nat}
    (h : Encoding.TellsLength bits n) : (length field).Finds bits n := by
  cases h with
  | one h => exact (finds_flag false).bind (finds_number h)
  | two h => exact (finds_flag true).bind ((finds_flag false).bind (finds_number h))

theorem finds_length (field : String) {n : Nat} (h : n < 16384) :
    (length field).Finds (Encoding.length n) n :=
  finds_length_of_tells field (Encoding.tellsLength_length h)

theorem finds_octets (data : Octets) : (octets data.length).Finds (Encoding.octets data) data := by
  have := (finds_bits (Bits.ofOctets data)).map Bits.toOctets
  rwa [Bits.length_ofOctets, Bits.toOctets_ofOctets, ← octets_eq] at this

theorem finds_openType_of_enclosed (field : String) (e : Encoding.Enclosed) :
    (openType field).Finds e.bits e.data :=
  (finds_length_of_tells field e.tells).bind (finds_octets e.data)

theorem finds_openType (field : String) {data : Octets} (h : data.length < 16384) :
    (openType field).Finds (Encoding.openType data) data :=
  finds_openType_of_enclosed field (.ofOctets data h)

theorem finds_size {count lower upper : Nat} (hb : Bounds lower upper) (hl : lower ≤ count)
    (hu : count ≤ upper) :
    (size lower upper).Finds (Encoding.constrained count lower upper) count := by
  have := (finds_constrained hb (Int.ofNat_le.mpr hl) (Int.ofNat_le.mpr hu)).map
    fun n : Int => (n % 2 ^ 64).toNat
  obtain ⟨_, hupper, _⟩ := hb
  rwa [Int.emod_eq_of_lt (by omega) (by omega), Int.toNat_natCast] at this

theorem finds_normallySmall_of_tells {bits : List Bool} {n : Nat} (h : Encoding.TellsSmall bits n) :
    normallySmall.Finds bits n := by
  cases h with
  | six h => exact (finds_flag false).bind (finds_number h)
  | counted hlength hcount h =>
    refine (finds_flag true).bind ((finds_length_of_tells _ hlength).bind ?_)
    rw [if_neg (by omega)]
    exact finds_number h

theorem finds_normallySmall {n : Nat} (h : n < 64) :
    normallySmall.Finds (Encoding.flag false ++ Encoding.number 6 n) n :=
  finds_normallySmall_of_tells (.six h)

theorem finds_normallySmall_counted {count n : Nat} (h8 : count ≤ 8) (h : n < 2 ^ (8 * count)) :
    normallySmall.Finds
      (Encoding.flag true ++ (Encoding.length count ++ Encoding.number (8 * count) n)) n :=
  finds_normallySmall_of_tells (.counted (Encoding.tellsLength_length (by omega)) h8 h)

/-- An addition counts on from the roots. -/
theorem finds_index_addition {roots addition : Nat} {bits : List Bool}
    (h : normallySmall.Finds bits addition) (hlt : roots + addition < 2 ^ 64) :
    (index roots true).Finds (Encoding.flag true ++ bits) (roots + addition) := by
  have hsum : (pure (roots + addition) : Read Nat).Finds [] (roots + addition) := finds_pure _
  rw [← List.append_nil bits]
  refine (finds_flag true).bind (h.bind ?_)
  rwa [if_neg (by omega)]

/-- The index of an addition does not go around the words. -/
theorem refuses_index_addition {roots addition : Nat} {bits : List Bool}
    (h : normallySmall.Finds bits addition) (hle : 2 ^ 64 ≤ roots + addition) :
    (index roots true).Refuses (Encoding.flag true ++ bits)
      (.outOfRange "enumerated extension" (saturated addition)) :=
  (finds_flag true).refuses (h.throws (if_pos hle))

/-! ## Extensible numbers -/

variable (field : String) {lower upper value : Int}

theorem finds_extensibleInteger_inside (hb : Bounds lower upper) (hl : lower ≤ value)
    (hu : value ≤ upper) :
    (extensibleInteger field lower upper).Finds
      (Encoding.flag false ++ Encoding.constrained value lower upper) value :=
  (finds_flag false).bind (finds_constrained hb hl hu)

/-- Any number, in two's complement on octets enough for it. -/
theorem finds_extensibleInteger_of_tells {count : Nat} {length : List Bool}
    (hlength : Encoding.TellsLength length count) (h0 : 0 < count) (h8 : count ≤ 8)
    (h : -2 ^ (8 * count - 1) ≤ value ∧ value < 2 ^ (8 * count - 1)) :
    (extensibleInteger field lower upper).Finds
      (Encoding.flag true ++ (length ++
        Encoding.number (8 * count) (value % 2 ^ (8 * count)).toNat)) value := by
  have hbits := (finds_bits (Bits.ofNat (8 * count) (value % 2 ^ (8 * count)).toNat)).map Bits.toInt
  obtain ⟨width, hwidth⟩ : ∃ width, 8 * count = width + 1 := ⟨8 * count - 1, by omega⟩
  rw [hwidth, Nat.add_sub_cancel] at h
  rw [Bits.length_ofNat, hwidth, Bits.toInt_ofNat h, ← hwidth] at hbits
  refine (finds_flag true).bind ((finds_length_of_tells field hlength).bind ?_)
  rwa [if_neg (by omega)]

theorem finds_extensibleInteger_outside {count : Nat} (h0 : 0 < count) (h8 : count ≤ 8)
    (h : -2 ^ (8 * count - 1) ≤ value ∧ value < 2 ^ (8 * count - 1)) :
    (extensibleInteger field lower upper).Finds
      (Encoding.flag true ++ (Encoding.length count ++
        Encoding.number (8 * count) (value % 2 ^ (8 * count)).toNat)) value :=
  finds_extensibleInteger_of_tells field (Encoding.tellsLength_length (by omega)) h0 h8 h

theorem refuses_extensibleInteger {count : Nat} {length : List Bool}
    (hlength : Encoding.TellsLength length count) (h : count = 0 ∨ 8 < count) :
    (extensibleInteger field lower upper).Refuses (Encoding.flag true ++ length)
      (.outOfRange field count) :=
  (finds_flag true).refuses ((finds_length_of_tells field hlength).throws (if_pos h))

/-! ## Extension additions -/

theorem finds_openTypes : ∀ data : List (Option Encoding.Enclosed),
    (openTypes field (data.map Option.isSome)).Finds
      ((data.filterMap id).flatMap Encoding.Enclosed.bits)
      ((data.filterMap id).map Encoding.Enclosed.data)
  | [] => finds_pure []
  | none :: more => finds_openTypes more
  | some first :: more =>
    (finds_openType_of_enclosed field first).bind ((finds_openTypes more).map (first.data :: ·))

theorem finds_additions_of_tells {data : List (Option Encoding.Enclosed)} {small : List Bool}
    (h0 : 1 ≤ data.length) (h64 : data.length ≤ 64)
    (hsmall : Encoding.TellsSmall small (data.length - 1)) :
    additions.Finds
      (small ++ (data.map Option.isSome ++ (data.filterMap id).flatMap Encoding.Enclosed.bits))
      ((data.filterMap id).map Encoding.Enclosed.data) := by
  have hbitmap := finds_bits (data.map Option.isSome)
  rw [List.length_map, ← Nat.sub_add_cancel h0] at hbitmap
  refine (finds_normallySmall_of_tells hsmall).bind ?_
  rw [if_neg (by omega)]
  exact hbitmap.bind (finds_openTypes "extension addition" data)

theorem finds_additions {data : List (Option Short)} (h0 : 1 ≤ data.length)
    (h64 : data.length ≤ 64) :
    additions.Finds
      ((Encoding.flag false ++ Encoding.number 6 (data.length - 1)) ++
        (data.map Option.isSome ++
          (data.filterMap id).flatMap fun octets : Short => Encoding.openType octets))
      ((data.filterMap id).map Subtype.val) := by
  let enclose (octets : Short) : Encoding.Enclosed := .ofOctets octets.1 octets.2
  have hcount : (data.map (Option.map enclose)).length = data.length := List.length_map _
  have hcodes := finds_additions_of_tells (hcount ▸ h0) (hcount ▸ h64)
    (.six (n := (data.map (Option.map enclose)).length - 1) (by omega))
  have hpresent : (data.map (Option.map enclose)).filterMap id =
      (data.filterMap id).map enclose := by
    rw [List.filterMap_map, List.map_filterMap]
    rfl
  have hbitmap : (data.map (Option.map enclose)).map Option.isSome = data.map Option.isSome := by
    simp
  rw [hpresent, hbitmap, List.length_map, List.flatMap_map, List.map_map] at hcodes
  exact hcodes

theorem refuses_additions {small : List Bool} {last : Nat} (hsmall : Encoding.TellsSmall small last)
    (h : 64 ≤ last) :
    additions.Refuses small (.outOfRange "extension additions" (saturated last)) :=
  (finds_normallySmall_of_tells hsmall).throws (if_pos h)

end Read

end V2x.Per
