import V2x.Proofs.Machine.Word
import V2x.Proofs.Per.View

/-!
# Reading in words

Reads as a machine does them: bit by bit into a word, with bitmaps kept as words and signs spread by shifts, and
with a check wherever a number could leave its word. Each of them agrees with the read on unbounded numbers and
lists of bits that it stands for, as long as the bounds it is given leave room in a word (`Spacious`).
-/

namespace V2x

/-- A fault of the encoding itself, whatever grammar describes it. -/
def Fault.ofEncoding : Fault → Prop
  | .incomplete _ _ | .outOfRange _ _ | .fragmented _ => True
  | .unsupported _ | .invalidChoice _ _ => False

/-- The reader has not gone past its octets. -/
def Per.Reader.Inside (r : Per.Reader) : Prop :=
  r.position ≤ 8 * r.data.size

theorem Per.Reader.inside_advance_ofOctets {data : Octets} {n : Nat} (h : n ≤ 8 * data.length) :
    ((Reader.ofOctets data).advance n).Inside := by
  simpa [Inside, ofOctets, advance] using h

namespace Machine

abbrev Reading (α : Type) := Checked Per.Reader α

/-- The presence bitmap of optional components, the first of them at its most significant bit. -/
structure Presence where
  bits : Nat
  count : Nat

def Presence.isPresent {σ : Type} (p : Presence) (index : Nat) : Checked σ Bool :=
  if index < p.count then do
    let places ← unsigned (p.count - 1 - index)
    return (← shiftRight p.bits places) % 2 = 1
  else
    pure false

namespace Reading

def fail {α : Type} (fault : Fault) : Reading α :=
  throw (.fault fault)

def remaining : Reading Nat := do
  let r ← get
  check (r.position ≤ 8 * r.data.size) .bounds
  return 8 * r.data.size - r.position

def bit : Reading Nat := do
  let r ← get
  check (r.position / 8 < r.data.size) .bounds
  let shifted ← shiftRight (r.data.getD (r.position / 8) 0).toNat (7 - r.position % 8)
  set (r.advance 1)
  return shifted % 2

/-- Shifts `count` bits into a word from its right. -/
def word : (count value : Nat) → Reading Nat
  | 0, value => pure value
  | count + 1, value => do
    let b ← bit
    word count ((← shiftLeft value 1) + b)

def bits (count : Nat) : Reading Nat := do
  check (count ≤ 64) .width
  let left ← remaining
  if count ≤ left then word count 0 else fail (.incomplete count left)

def flag : Reading Bool := do
  return (← bits 1) = 1

def extensionBit (extensible : Bool) : Reading Bool :=
  if extensible then flag else pure false

def presence (count : Nat) : Reading Presence := do
  return ⟨← bits count, count⟩

def constrained (lower upper : Int) : Reading Int := do
  let span ← unsigned (← signed (upper - lower))
  let range ← unsigned (span + 1)
  let offset ← bits (Bits.width range)
  signed (lower + (← signed offset))

def length (field : String) : Reading Nat := do
  if ← flag then
    if ← flag then fail (.fragmented field) else bits 14
  else
    bits 7

def extensibleInteger (field : String) (lower upper : Int) : Reading Int := do
  if ← flag then
    let count ← length field
    if count = 0 ∨ 8 < count then
      fail (.outOfRange field (← signed count))
    else
      let raw ← bits (8 * count)
      let places ← unsigned (64 - 8 * count)
      shiftSigned (← shiftLeft raw places) places
  else
    constrained lower upper

def normallySmall : Reading Nat := do
  if ← flag then
    let count ← length "normally small number"
    if 8 < count then
      fail (.outOfRange "normally small number" (← signed count))
    else
      bits (8 * count)
  else
    bits 6

def index (roots : Nat) (extensible : Bool) : Reading Nat := do
  if ← extensionBit extensible then
    let addition ← normallySmall
    if roots + addition < 2 ^ 64 then
      unsigned (roots + addition)
    else
      fail (.outOfRange "enumerated extension" (← signed (Per.Read.saturated addition)))
  else
    bits (Bits.width roots)

def size (lower upper : Nat) : Reading Nat := do
  unsigned (← constrained lower upper)

/-- Octets one by one, each shifted together from its bits. -/
def octetsFrom : (count : Nat) → Reading Octets
  | 0 => pure []
  | count + 1 => do
    let first ← octet (← bits 8)
    return first :: (← octetsFrom count)

def octets (count : Nat) : Reading Octets := do
  let wanted ← unsigned (8 * count)
  let left ← remaining
  if wanted ≤ left then
    let r ← get
    if r.position % 8 = 0 then
      check (r.position / 8 + count ≤ r.data.size) .bounds
      set (r.advance wanted)
      return (r.data.extract (r.position / 8) (r.position / 8 + count)).toList
    else
      octetsFrom count
  else
    fail (.incomplete wanted left)

def openType (field : String) : Reading Octets := do
  octets (← length field)

/-- The open types that the bitmap marks from a place on. -/
def openTypes (field : String) (p : Presence) (index : Nat) : (left : Nat) → Reading (List Octets)
  | 0 => pure []
  | left + 1 => do
    if ← p.isPresent index then
      let first ← openType field
      return first :: (← openTypes field p (index + 1) left)
    else
      openTypes field p (index + 1) left

def additions : Reading (List Octets) := do
  let last ← normallySmall
  if 64 ≤ last then
    fail (.outOfRange "extension additions" (← signed (Per.Read.saturated last)))
  else
    let p ← presence (last + 1)
    openTypes "extension addition" p 0 (last + 1)

def rest : Reading Octets := do
  let whole ← octetsFrom ((← remaining) / 8)
  let tail ← remaining
  if 0 < tail then
    let last ← bits tail
    let places ← unsigned (8 - tail)
    return whole ++ [← octet (← shiftLeft last places)]
  else
    return whole

end Reading

/-- Bounds that leave room in a word for whatever a constrained number is encoded as. -/
def Spacious (lower upper : Int) : Prop :=
  -2 ^ 63 ≤ lower ∧ lower ≤ upper ∧ upper - lower < 2 ^ 63 ∧
    Bits.width (upper - lower + 1).toNat < 64 ∧
    lower + 2 ^ Bits.width (upper - lower + 1).toNat ≤ 2 ^ 63
deriving instance Decidable for Spacious

/-- A read in words agrees with one on unbounded numbers, and only the encoding is at fault where it fails. -/
def Follows {α β : Type} (V : α → β → Prop) (m : Reading α) (n : Per.Read β) : Prop :=
  Agrees Per.Reader.Inside Fault.ofEncoding V m n

/-- Both come to the same value, of which `P` holds. -/
def Same {α : Type} (P : α → Prop) (a b : α) : Prop :=
  a = b ∧ P b

namespace Reading

open Per (Reader Read)

/-! ## Bits -/

theorem bit_of_lt {r : Reader} (h : r.position < 8 * r.data.size) :
    bit r = .ok (r.bitAt r.position).toNat (r.advance 1) := by
  have hbound : r.position / 8 < r.data.size := by omega
  have hplaces : 7 - r.position % 8 < 64 := by omega
  have hbit : (r.data.getD (r.position / 8) 0).toNat / 2 ^ (7 - r.position % 8) % 2 =
      (r.bitAt r.position).toNat :=
    (Nat.toNat_testBit _ _).symm
  rw [bit, get_bind, check_of hbound, shiftRight_of hplaces, pure_bind, pure_bind, set_bind, hbit]
  rfl

theorem word_of_le {count v : Nat} {r : Reader} (h : r.position + count ≤ 8 * r.data.size)
    (hroom : (v + 1) * 2 ^ count ≤ 2 ^ 64) :
    word count v r = .ok (v * 2 ^ count + Bits.toNat (r.rest.take count)) (r.advance count) := by
  induction count generalizing v r with
  | zero => simp [word, Bits.toNat]
  | succ count ih =>
    have hremaining : count + 1 ≤ r.remaining := by
      unfold Reader.remaining
      omega
    have hpow : 2 ^ (count + 1) = 2 * 2 ^ count := Nat.pow_succ'
    have htake : r.rest.take (count + 1) =
        r.bitAt r.position :: (r.advance 1).rest.take count := by
      rw [← Reader.map_bitAt hremaining, List.range'_succ, List.map_cons,
        ← Reader.map_bitAt (by rw [Reader.remaining_advance]; omega)]
      rfl
    have hlength : ((r.advance 1).rest.take count).length = count := by
      rw [List.length_take, Reader.length_rest, Reader.remaining_advance]
      omega
    generalize hb : (r.bitAt r.position).toNat = b
    have hone : (v + 1) * 2 * 1 ≤ (v + 1) * 2 * 2 ^ count :=
      Nat.mul_le_mul_left _ Nat.one_le_two_pow
    rw [hpow, ← Nat.mul_assoc] at hroom
    have hshift : v * 2 ^ 1 % 2 ^ 64 = v * 2 := by omega
    have hnext : (v * 2 + b + 1) * 2 ^ count ≤ 2 ^ 64 := by
      have hle : v * 2 + b + 1 ≤ (v + 1) * 2 := by
        have := Bool.toNat_le (r.bitAt r.position)
        omega
      exact Nat.le_trans (Nat.mul_le_mul_right _ hle) hroom
    have hmore := ih (r := r.advance 1) (by simp only [Reader.advance]; omega) hnext
    rw [word, EStateM.bind_of_ok (bit_of_lt (by omega)), shiftLeft_of (by decide), hshift, pure_bind,
      hb, hmore, htake, Bits.toNat_cons, hlength, hb, Reader.advance_advance, hpow]
    congr 1
    · rw [Nat.add_mul, Nat.mul_assoc, Nat.add_assoc]
    · rw [Nat.add_comm]

theorem remaining_of_inside {r : Reader} (h : r.Inside) : remaining r = .ok r.remaining r := by
  rw [remaining, get_bind, check_of (show r.position ≤ 8 * r.data.size from h)]
  rfl

theorem inside_advance {r : Reader} {n : Nat} (h : n ≤ r.remaining) (hr : r.Inside) :
    (r.advance n).Inside := by
  unfold Reader.Inside Reader.remaining at *
  simp only [Reader.advance]
  omega

theorem follows_bits {n : Nat} (h : n ≤ 64) :
    Follows (fun w l => w = Bits.toNat l ∧ l.length = n) (bits n) (Read.bits n) := by
  intro r hr
  have hstart : bits n r =
      if n ≤ r.remaining then word n 0 r else .error (.fault (.incomplete n r.remaining)) r := by
    rw [bits, check_of h, pure_bind, EStateM.bind_of_ok (remaining_of_inside hr)]
    split <;> rfl
  rcases Nat.lt_or_ge r.remaining n with hn | hn
  · rw [Read.bits_of_lt hn, hstart, if_neg (Nat.not_le.mpr hn)]
    exact ⟨hr, rfl, trivial⟩
  · have hroom : (0 + 1) * 2 ^ n ≤ 2 ^ 64 := by
      rw [Nat.zero_add, Nat.one_mul]
      exact Nat.pow_le_pow_right (by decide) h
    have hplace : r.position + n ≤ 8 * r.data.size := by
      unfold Reader.Inside Reader.remaining at *
      omega
    rw [Read.bits_of_le hn, hstart, if_pos hn, word_of_le hplace hroom, Nat.zero_mul, Nat.zero_add]
    refine ⟨inside_advance hn hr, _, rfl, rfl, ?_⟩
    rw [List.length_take, Reader.length_rest]
    omega

theorem follows_number {n : Nat} (h : n ≤ 64) :
    Follows (Same (· < 2 ^ n)) (bits n) (Read.number n) := by
  rw [← bind_pure (bits n)]
  refine (follows_bits h).bind fun w l hl => Agrees.pure ⟨hl.1, ?_⟩
  rw [← hl.2]
  exact Bits.toNat_lt l

theorem follows_presence {n : Nat} (h : n ≤ 64) :
    Follows (fun p l => p = ⟨Bits.toNat l, l.length⟩ ∧ l.length = n) (presence n) (Read.bits n) := by
  rw [← bind_pure (Read.bits n)]
  refine (follows_bits h).bind fun w l hl => Agrees.pure ?_
  obtain ⟨rfl, rfl⟩ := hl
  exact ⟨rfl, rfl⟩

theorem follows_flag : Follows Eq flag Read.flag := by
  refine (follows_bits (by decide)).bind fun w l hl => Agrees.pure ?_
  obtain ⟨rfl, hlength⟩ := hl
  obtain ⟨b, rfl⟩ := List.length_eq_one_iff.mp hlength
  cases b <;> rfl

theorem follows_extensionBit (extensible : Bool) :
    Follows Eq (extensionBit extensible) (Read.extensionBit extensible) := by
  cases extensible with
  | false => exact Agrees.pure rfl
  | true => exact follows_flag

/-! ## Numbers -/

theorem follows_constrained {lower upper : Int} (h : Spacious lower upper) :
    Follows (Same fun n => lower ≤ n ∧ n < 2 ^ 63) (constrained lower upper)
      (Read.constrained lower upper) := by
  obtain ⟨hlower, hle, hspan, hwidth, hroom⟩ := h
  have hbetween : Bits.widthBetween lower upper = Bits.width (upper - lower + 1).toNat :=
    Bits.widthBetween_of_le hle (by omega)
  have hrange : ((upper - lower).toNat : Int) + 1 = upper - lower + 1 := by omega
  rw [constrained, signed_of (by omega), pure_bind, unsigned_of (by omega), pure_bind, hrange,
    unsigned_of (by omega), pure_bind, Read.constrained, hbetween]
  refine (follows_number (Nat.le_of_lt hwidth)).bind fun w offset hoffset => ?_
  obtain ⟨rfl, hlt⟩ := hoffset
  have hpow : 2 ^ Bits.width (upper - lower + 1).toNat ≤ 2 ^ 63 :=
    Nat.pow_le_pow_right (by decide) (Nat.le_of_lt_succ hwidth)
  have hcast : ((2 ^ Bits.width (upper - lower + 1).toNat : Nat) : Int) =
      2 ^ Bits.width (upper - lower + 1).toNat := by push_cast; rfl
  have hsum : (lower + (w : Int)).bmod (2 ^ 64) = lower + w :=
    Int.bmod_eq_of_le_mul_two (by omega) (by omega)
  rw [signed_of (by omega), pure_bind, signed_of (by omega)]
  exact Agrees.pure ⟨hsum.symm, by omega⟩

-- Bounds that leave no room: two bits tell three numbers apart, and the fourth is no signed word.
example : (constrained (2 ^ 63 - 3) (2 ^ 63 - 1) (.ofOctets [0xff])).outcome = .error (.trap .signed) := by
  decide +kernel

theorem follows_length (field : String) :
    Follows (Same (· < 2 ^ 14)) (length field) (Read.length field) := by
  refine follows_flag.bind fun b _ hb => ?_
  subst hb
  cases b with
  | false =>
    refine (follows_number (n := 7) (by decide)).mono (fun _ h => h) fun w n h => ⟨h.1, ?_⟩
    exact Nat.lt_trans h.2 (by decide)
  | true =>
    refine follows_flag.bind fun b _ hb => ?_
    subst hb
    cases b with
    | false => exact follows_number (by decide)
    | true => exact Agrees.throw trivial

section

variable {half unit n : Nat} (hwords : half * unit * 2 = 2 ^ 64)

include hwords

theorem unit_pos : 0 < unit := by
  rcases Nat.eq_zero_or_pos unit with rfl | hpos
  · simp at hwords
  · exact hpos

variable (hn : n < half)

include hn

theorem bmod_shifted_of_lt : ((n * unit % 2 ^ 64 : Nat) : Int).bmod (2 ^ 64) / unit = n := by
  have hunit := unit_pos hwords
  have hscaled : (n + 1) * unit ≤ half * unit := Nat.mul_le_mul_right unit hn
  rw [Nat.add_mul, Nat.one_mul] at hscaled
  rw [Nat.mod_eq_of_lt (by omega), Int.bmod_eq_of_le_mul_two (by omega) (by omega), Int.natCast_mul,
    Int.mul_ediv_cancel _ (by omega)]

theorem bmod_shifted_of_le :
    (((half + n) * unit % 2 ^ 64 : Nat) : Int).bmod (2 ^ 64) / unit = n - half := by
  have hunit := unit_pos hwords
  have hscaled : (n + 1) * unit ≤ half * unit := Nat.mul_le_mul_right unit hn
  rw [Nat.add_mul, Nat.one_mul] at hscaled
  have hproduct : ((n : Int) - half) * unit = ((n * unit : Nat) : Int) - (half * unit : Nat) := by
    rw [Int.sub_mul, Int.natCast_mul, Int.natCast_mul]
  have hnegative : (((half + n) * unit : Nat) : Int) - ((2 ^ 64 : Nat) : Int) =
      ((n : Int) - half) * unit := by
    rw [hproduct, Nat.add_mul]
    omega
  rw [Nat.mod_eq_of_lt (by rw [Nat.add_mul]; omega), ← Int.sub_bmod_right, hnegative,
    Int.bmod_eq_of_le_mul_two (by omega) (by omega), Int.mul_ediv_cancel _ (by omega)]

end

/-- The sign of a word that was shifted to the left is spread over its octets. -/
theorem toInt_of_shifted {l : List Bool} (hpos : 0 < l.length) (h : l.length ≤ 64) :
    ((Bits.toNat l * 2 ^ (64 - l.length) % 2 ^ 64 : Nat) : Int).bmod (2 ^ 64) / 2 ^ (64 - l.length) =
      Bits.toInt l := by
  obtain ⟨b, l, rfl⟩ := List.exists_cons_of_length_pos hpos
  rw [List.length_cons] at h ⊢
  generalize hplaces : 64 - (l.length + 1) = places
  have hwords : 2 ^ l.length * 2 ^ places * 2 = 2 ^ 64 := by
    rw [← Nat.pow_add, ← Nat.pow_succ]
    congr 1
    omega
  have hdouble : (2 : Int) ^ (l.length + 1) = ((2 ^ l.length * 2 : Nat) : Int) := by
    rw [← Nat.pow_succ, Int.natCast_pow]
    rfl
  have hcast : (2 : Int) ^ places = ((2 ^ places : Nat) : Int) := by
    rw [Int.natCast_pow]
    rfl
  have hlt : Bits.toNat l < 2 ^ l.length := Bits.toNat_lt l
  unfold Bits.toInt
  rw [Bits.toNat_cons, List.headD_cons, List.length_cons, hdouble, hcast]
  cases b with
  | false =>
    rw [Bool.toNat_false, Nat.zero_mul, Nat.zero_add]
    exact bmod_shifted_of_lt hwords hlt
  | true =>
    rw [Bool.toNat_true, Nat.one_mul, bmod_shifted_of_le hwords hlt, if_pos rfl]
    omega

theorem follows_extensibleInteger {field : String} {lower upper : Int} (h : Spacious lower upper) :
    Follows Eq (extensibleInteger field lower upper) (Read.extensibleInteger field lower upper) := by
  refine follows_flag.bind fun b _ hb => ?_
  subst hb
  cases b with
  | false => exact (follows_constrained h).mono (fun _ h => h) fun _ _ h => h.1
  | true =>
    refine (follows_length field).bind fun count _ hcount => ?_
    obtain ⟨rfl, hlt⟩ := hcount
    by_cases hsize : count = 0 ∨ 8 < count
    · simp only [if_pos hsize]
      rw [signed_of (by omega)]
      exact Agrees.throw trivial
    · simp only [if_neg hsize]
      refine (follows_bits (by omega)).bind fun w l hl => ?_
      obtain ⟨rfl, hlength⟩ := hl
      have hplaces : ((64 : Int) - 8 * count).toNat = 64 - l.length := by omega
      rw [unsigned_of (by omega), pure_bind, hplaces, shiftLeft_of (by omega), pure_bind,
        shiftSigned_of (by omega)]
      exact Agrees.pure (toInt_of_shifted (by omega) (by omega))

theorem follows_normallySmall :
    Follows (Same (· < 2 ^ 64)) normallySmall Read.normallySmall := by
  refine follows_flag.bind fun b _ hb => ?_
  subst hb
  cases b with
  | false =>
    refine (follows_number (n := 6) (by decide)).mono (fun _ h => h) fun w n h => ⟨h.1, ?_⟩
    exact Nat.lt_trans h.2 (by decide)
  | true =>
    refine (follows_length _).bind fun count _ hcount => ?_
    obtain ⟨rfl, hlt⟩ := hcount
    by_cases hsize : 8 < count
    · simp only [if_pos hsize]
      rw [signed_of (by omega)]
      exact Agrees.throw trivial
    · simp only [if_neg hsize]
      refine (follows_number (by omega)).mono (fun _ h => h) fun w n h => ⟨h.1, ?_⟩
      exact Nat.lt_of_lt_of_le h.2 (Nat.pow_le_pow_right (by decide) (by omega))

theorem signed_saturated {σ : Type} (n : Nat) :
    (signed (Per.Read.saturated n) : Checked σ Int) = pure (Per.Read.saturated n) := by
  apply signed_of
  unfold Per.Read.saturated
  omega

/-- What an index is that is not rejected. -/
def Indexes (roots : Nat) (extensible : Bool) (n : Nat) : Prop :=
  n < 2 ^ 64 ∧ (extensible = true ∨ n < 2 ^ Bits.width roots)

theorem follows_index {roots : Nat} {extensible : Bool} (h : roots < 2 ^ 32) :
    Follows (Same (Indexes roots extensible)) (index roots extensible)
      (Read.index roots extensible) := by
  have hwidth : Bits.width roots ≤ 32 := Bits.width_le_iff.mpr (Nat.le_of_lt h)
  cases extensible with
  | false =>
    show Follows _ (bits (Bits.width roots)) (Read.number (Bits.width roots))
    refine (follows_number (by omega)).mono (fun _ h => h) fun w n hn => ⟨hn.1, ?_, .inr hn.2⟩
    exact Nat.lt_of_lt_of_le hn.2 (Nat.pow_le_pow_right (by decide) (by omega))
  | true =>
    refine follows_flag.bind fun b _ hb => ?_
    subst hb
    cases b with
    | false =>
      refine (follows_number (by omega)).mono (fun _ h => h) fun w n hn => ⟨hn.1, ?_, .inl rfl⟩
      exact Nat.lt_of_lt_of_le hn.2 (Nat.pow_le_pow_right (by decide) (by omega))
    | true =>
      refine follows_normallySmall.bind fun addition _ haddition => ?_
      obtain ⟨rfl, hlt⟩ := haddition
      by_cases hsum : roots + addition < 2 ^ 64
      · simp only [if_pos hsum, if_neg (Nat.not_le.mpr hsum)]
        rw [unsigned_of (by omega)]
        exact Agrees.pure ⟨by omega, hsum, .inl rfl⟩
      · simp only [if_neg hsum, if_pos (Nat.le_of_not_lt hsum)]
        rw [signed_saturated]
        exact Agrees.throw trivial

theorem follows_size {lower upper : Nat} (h : Spacious lower upper) :
    Follows Eq (size lower upper) (Read.size lower upper) := by
  refine (follows_constrained h).bind fun n _ hn => ?_
  obtain ⟨rfl, hlower, hlt⟩ := hn
  rw [unsigned_of (by omega)]
  refine Agrees.pure ?_
  rw [Int.emod_eq_of_lt (by omega) (by omega)]

/-! ## Octets and additions -/

theorem isPresent_eq {σ : Type} {l : List Bool} (h : l.length ≤ 64) (i : Nat) :
    (Presence.isPresent ⟨Bits.toNat l, l.length⟩ i : Checked σ Bool) =
      pure ((l.drop i).headD false) := by
  unfold Presence.isPresent
  dsimp only
  by_cases hi : i < l.length
  · have hplaces : ((l.length : Int) - 1 - i).toNat = l.length - 1 - i := by omega
    have hbit : l[i]? = some ((Bits.toNat l).testBit (l.length - 1 - i)) := by
      rw [← Bits.getElem?_ofNat _ hi, Bits.ofNat_toNat]
    rw [if_pos hi, unsigned_of (by omega), pure_bind, hplaces, shiftRight_of (by omega), pure_bind,
      List.headD_eq_head?_getD, List.head?_drop, hbit, Option.getD_some,
      Nat.testBit_eq_decide_div_mod_eq]
  · rw [if_neg hi, List.drop_eq_nil_of_le (Nat.le_of_not_lt hi)]
    rfl

theorem follows_octetsFrom (count : Nat) :
    Follows Eq (octetsFrom count) (Read.unalignedOctets count) := by
  induction count with
  | zero => exact Agrees.pure rfl
  | succ count ih =>
    refine (follows_number (n := 8) (by decide)).bind fun n _ hn => ?_
    obtain ⟨rfl, hlt⟩ := hn
    rw [octet_of hlt, pure_bind]
    exact ih.bind fun _ _ hmore => Agrees.pure (hmore ▸ rfl)

theorem follows_octets {count : Nat} (h : 8 * count < 2 ^ 64) :
    Follows Eq (octets count) (Read.octets count) := by
  intro r hr
  have hunaligned := follows_octetsFrom count r hr
  have hwanted : (8 * (count : Int)).toNat = 8 * count := by omega
  unfold octets Read.octets
  rw [unsigned_of (by omega), pure_bind, hwanted, EStateM.bind_of_ok (remaining_of_inside hr)]
  by_cases hcount : 8 * count ≤ r.remaining
  · rw [if_pos hcount, if_pos hcount, get_bind]
    by_cases haligned : r.position % 8 = 0
    · have hbound : r.position / 8 + count ≤ r.data.size := by
        unfold Reader.Inside Reader.remaining at *
        omega
      rw [if_pos haligned, if_pos haligned, check_of hbound, pure_bind, set_bind]
      exact ⟨inside_advance hcount hr, _, rfl, rfl⟩
    · rw [if_neg haligned, if_neg haligned]
      exact hunaligned
  · rw [if_neg hcount, if_neg hcount]
    exact ⟨hr, rfl, trivial⟩

theorem follows_openType (field : String) : Follows Eq (openType field) (Read.openType field) := by
  refine (follows_length field).bind fun count _ hcount => ?_
  obtain ⟨rfl, hlt⟩ := hcount
  exact follows_octets (by omega)

theorem follows_openTypes (field : String) {l : List Bool} (h : l.length ≤ 64) {i left : Nat}
    (hleft : i + left = l.length) :
    Follows Eq (openTypes field ⟨Bits.toNat l, l.length⟩ i left)
      (Read.openTypes field (l.drop i)) := by
  induction left generalizing i with
  | zero =>
    rw [List.drop_eq_nil_of_le (by omega)]
    exact Agrees.pure rfl
  | succ left ih =>
    have hi : i < l.length := by omega
    have hmore := ih (i := i + 1) (by omega)
    have hpresent := @isPresent_eq Reader _ h i
    rw [List.drop_eq_getElem_cons hi] at hpresent ⊢
    rw [List.headD_cons] at hpresent
    rw [openTypes, hpresent, pure_bind]
    cases l[i] with
    | false => exact hmore
    | true =>
      refine (follows_openType field).bind fun first _ hfirst => ?_
      subst hfirst
      exact hmore.bind fun _ _ hlast => Agrees.pure (hlast ▸ rfl)

theorem follows_additions : Follows Eq additions Read.additions := by
  refine follows_normallySmall.bind fun last _ hlast => ?_
  obtain ⟨rfl, hlt⟩ := hlast
  by_cases hsize : 64 ≤ last
  · simp only [if_pos hsize]
    rw [signed_saturated]
    exact Agrees.throw trivial
  · simp only [if_neg hsize]
    refine (follows_presence (by omega)).bind fun p l hp => ?_
    obtain ⟨rfl, hlength⟩ := hp
    rw [← hlength]
    exact follows_openTypes (i := 0) _ (by omega) (by omega)

/-- The last part of an octet, if there is one, becomes an octet of its own. -/
theorem follows_tail (whole : Octets) {tail : Nat} (h : tail < 8) :
    Follows Eq
      (if 0 < tail then do
        let last ← bits tail
        let places ← unsigned (8 - tail)
        return whole ++ [← octet (← shiftLeft last places)]
      else
        return whole)
      (if tail = 0 then return whole
      else return whole ++ [UInt8.ofNat ((← Read.number tail) * 2 ^ (8 - tail))]) := by
  by_cases h0 : tail = 0
  · rw [if_neg (by omega), if_pos h0]
    exact Agrees.pure rfl
  · rw [if_pos (by omega), if_neg h0]
    refine (follows_number (by omega)).bind fun n _ hn => ?_
    obtain ⟨rfl, hlt⟩ := hn
    have hplaces : ((8 : Int) - tail).toNat = 8 - tail := by omega
    have hoctet : n * 2 ^ (8 - tail) < 256 := by
      have hscaled := Nat.mul_lt_mul_of_pos_right hlt (Nat.two_pow_pos (8 - tail))
      rwa [← Nat.pow_add, Nat.add_sub_cancel' (Nat.le_of_lt h)] at hscaled
    rw [unsigned_of (by omega), pure_bind, hplaces, shiftLeft_of (by omega), pure_bind,
      Nat.mod_eq_of_lt (by omega), octet_of hoctet, pure_bind]
    exact Agrees.pure rfl

theorem follows_rest : Follows Eq rest Read.rest := by
  intro r hr
  have hwhole := Read.unalignedOctets_of_le (Nat.mul_div_le r.remaining 8)
  have hfirst := follows_octetsFrom (r.remaining / 8) r hr
  rw [hwhole] at hfirst
  obtain ⟨hinside, whole, hchecked, rfl⟩ := hfirst
  rw [EStateM.Result.state_ok] at hinside
  have htail : (r.advance (8 * (r.remaining / 8))).remaining < 8 := by
    rw [Reader.remaining_advance]
    omega
  have hget : ∀ s : Reader, (get : Read Reader) s = .ok s s := fun _ => rfl
  generalize r.advance (8 * (r.remaining / 8)) = a at *
  rw [rest, EStateM.bind_of_ok (remaining_of_inside hr), EStateM.bind_of_ok hchecked,
    EStateM.bind_of_ok (remaining_of_inside hinside), Read.rest, EStateM.bind_of_ok (hget r),
    EStateM.bind_of_ok hwhole, EStateM.bind_of_ok (hget a)]
  exact follows_tail _ htail a hinside

end Reading

end Machine

end V2x
