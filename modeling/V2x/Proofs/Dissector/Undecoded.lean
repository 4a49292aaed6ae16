import V2x.Proofs.Dissector.Truncation
import V2x.Proofs.Machine.Reader

/-!
# What is left undecoded

The last container of a notification begins wherever the ones before it end, and is shown as octets of its own.
These hold the bits that are left, all of them and in their order, and zeros to fill the last octet
(`Bits.LeftAligned`, `undecoded_leftAligned`).
-/

namespace V2x

open Per (Read Reader)

namespace Bits

/-- The octets hold the bits, and behind them zeros up to the end of the last octet. -/
def LeftAligned (bits : List Bool) (octets : Octets) : Prop :=
  ∃ n < 8, ofOctets octets = bits ++ List.replicate n false

theorem toNat_replicate_false (n : Nat) : toNat (List.replicate n false) = 0 := by
  induction n with
  | zero => rfl
  | succ n ih => simp [List.replicate_succ, toNat_cons, ih]

theorem ofNat_toOctet {bits : List Bool} (h : bits.length ≤ 8) :
    ofNat 8 (toOctet bits).toNat = bits ++ List.replicate (8 - bits.length) false := by
  have hlength : (bits ++ List.replicate (8 - bits.length) false).length = 8 := by
    rw [List.length_append, List.length_replicate]
    omega
  have hvalue : toNat (bits ++ List.replicate (8 - bits.length) false) =
      toNat bits * 2 ^ (8 - bits.length) := by
    rw [toNat_append, toNat_replicate_false, List.length_replicate, Nat.add_zero]
  have hlt := toNat_lt (bits ++ List.replicate (8 - bits.length) false)
  have hbits := ofNat_toNat (bits ++ List.replicate (8 - bits.length) false)
  rw [hlength, hvalue] at hlt hbits
  rw [toOctet, UInt8.toNat_ofNat_of_lt' hlt, hbits]

theorem leftAligned_toOctets (bits : List Bool) : LeftAligned bits (toOctets bits) := by
  by_cases h0 : bits = []
  · rw [h0]
    exact ⟨0, by decide, rfl⟩
  by_cases h : bits.length < 8
  · have hpos := List.length_pos_iff.mpr h0
    refine ⟨8 - bits.length, by omega, ?_⟩
    rw [toOctets_of_length_lt h0 h, ofOctets_cons, ofOctets_nil, List.append_nil,
      ofNat_toOctet (Nat.le_of_lt h)]
  · have h8 : (bits.take 8).length = 8 := by rw [List.length_take]; omega
    have hfirst : ofNat 8 (toOctet (bits.take 8)).toNat = bits.take 8 := by
      simpa [h8] using ofNat_toOctet (Nat.le_of_eq h8)
    obtain ⟨n, hn, hmore⟩ := leftAligned_toOctets (bits.drop 8)
    refine ⟨n, hn, ?_⟩
    calc ofOctets (toOctets bits)
        = ofOctets (toOctets (bits.take 8 ++ bits.drop 8)) := by rw [List.take_append_drop]
      _ = bits.take 8 ++ ofOctets (toOctets (bits.drop 8)) := by
          rw [toOctets_append_eight h8, ofOctets_cons, hfirst]
      _ = bits.take 8 ++ bits.drop 8 ++ List.replicate n false := by rw [hmore, List.append_assoc]
      _ = bits ++ List.replicate n false := by rw [List.take_append_drop]
termination_by bits.length
decreasing_by rw [List.length_drop]; omega

end Bits

namespace Per

theorem Read.rest_advance_ofOctets (data : Octets) {n : Nat} (h : n ≤ 8 * data.length) :
    rest ((Reader.ofOctets data).advance n) =
      .ok (Bits.toOctets ((Bits.ofOctets data).drop n))
        ((Reader.ofOctets data).advance (8 * data.length)) := by
  rw [rest_eq, Reader.rest_advance_ofOctets, Reader.remaining_advance_ofOctets, Reader.advance_advance,
    Nat.add_sub_cancel' h]

end Per

namespace Schema

theorem decode_alacarte (resolve : Resolver) {present : List Bool} (h : present[2]? = some true) :
    Components.decode resolve Denm.schema present = (do
      Components.decode resolve Denm.containers present
      Dissect.undecoded "alacarte" "AlacarteContainer not decoded") := by
  have hpresent : present.tail.tail.headD false = true := by
    rw [List.headD_eq_head?_getD, List.head?_eq_getElem?, List.getElem?_tail, List.getElem?_tail, h]
    rfl
  have hlast : Field.decode resolve (.undecoded "alacarte" "AlacarteContainer not decoded") =
      Dissect.undecoded "alacarte" "AlacarteContainer not decoded" := by rw [Field.decode]
  simp only [Denm.schema, Denm.containers, Components.decode, hpresent, hlast, bind_assoc, if_true,
    bind_pure_unit]
  cases present.headD false <;> cases present.tail.headD false <;> simp

end Schema

namespace Dissect

theorem undecoded_advance (name remark : String) (data : Octets) {n : Nat} (h : n ≤ 8 * data.length)
    (s : Scene) : undecoded name remark ⟨(Reader.ofOctets data).advance n, s⟩ =
      .ok () ⟨(Reader.ofOctets data).advance (8 * data.length), s.emit ((Node.leaf name .none).push
        ((Node.raw (Bits.toOctets ((Bits.ofOctets data).drop n))).addNote ⟨.note, remark⟩))⟩ := by
  have hread : read .rest ⟨(Reader.ofOctets data).advance n, s⟩ =
      .ok (Bits.toOctets ((Bits.ofOctets data).drop n))
        ⟨(Reader.ofOctets data).advance (8 * data.length), s⟩ := by
    rw [read_eq, Read.rest_advance_ofOctets data h]
    rfl
  unfold undecoded
  rw [EStateM.bind_of_ok hread]
  rfl

variable {resolve : Resolver} {body : Octets} {s t : Scene} {r : Reader}

theorem schema_alacarte (h : Schema.Denm.alacarte? body = some true) :
    Schema.decode resolve Schema.Denm.schema ⟨.ofOctets body, s⟩ =
      ((read (.bits 3) >>= Components.decode resolve Schema.Denm.containers) >>= fun _ =>
        undecoded "alacarte" "AlacarteContainer not decoded") ⟨.ofOctets body, s⟩ := by
  have hcount : Schema.Denm.schema.optionalCount = 3 := rfl
  obtain ⟨hlt, -⟩ := List.getElem?_eq_some_iff.mp h
  rw [← Reader.rest_ofOctets, Reader.length_rest] at hlt
  have hread := read_bits_of_le (Nat.succ_le_of_lt hlt) s
  have hpresent : ((Reader.ofOctets body).rest.take 3)[2]? = some true := by
    rwa [List.getElem?_take_of_lt (by decide), Reader.rest_ofOctets]
  rw [Schema.decode, hcount, bind_assoc, EStateM.bind_of_ok hread, EStateM.bind_of_ok hread,
    Schema.decode_alacarte resolve hpresent]

theorem containers_advance (happends : resolve.Appends)
    (h : (read (.bits 3) >>= Components.decode resolve Schema.Denm.containers) ⟨.ofOctets body, s⟩ =
      .ok () ⟨r, t⟩) :
    r = (Reader.ofOctets body).advance r.position ∧ r.position ≤ 8 * body.length := by
  have hcut := (cut_read (.bits 3)).bind (cut_components happends (c := Schema.Denm.containers) (by decide))
  obtain ⟨k, hk, hreader⟩ := Cut.advances hcut h
  rw [Reader.remaining_ofOctets] at hk
  have hposition : r.position = k := by
    rw [show r = (Reader.ofOctets body).advance k from hreader, Reader.position_advance,
      Reader.position_ofOctets, Nat.zero_add]
  rw [hposition]
  exact ⟨hreader, hk⟩

end Dissect

namespace Dissector

/-- The rest of any octets from any place on is left aligned on the fewest octets that hold it, and there is
nothing after it. A notification with its last container accounts for all octets, and what shows that container is
the rest of them, from where the containers before it end. -/
theorem undecoded_leftAligned (d : Dissector) (invoke : Invoke) :
    (∀ (data : Octets) (p : Nat), p ≤ 8 * data.length →
      let r := (Reader.ofOctets data).advance p
      let stop := (Reader.ofOctets data).advance (8 * data.length)
      ∃ left, Read.rest r = .ok left stop ∧ Machine.Reading.rest r = .ok left stop ∧
        left.length = (8 * data.length - p + 7) / 8 ∧
        Bits.LeftAligned ((Bits.ofOctets data).drop p) left ∧
        Read.rest stop = .ok [] stop ∧ Machine.Reading.rest stop = .ok [] stop) ∧
    ∀ (body : Octets) (s t : Scene) (r : Reader), Schema.Denm.alacarte? body = some true →
      (Dissect.read (.bits 3) >>= Components.decode (resolve d invoke) Schema.Denm.containers)
        ⟨.ofOctets body, s⟩ = .ok () ⟨r, t⟩ →
      ∃ left, Bits.LeftAligned ((Bits.ofOctets body).drop r.position) left ∧
        parseSchema d invoke Schema.Denm.schema body s =
          .ok body.length (t.emit ((Node.leaf "alacarte" .none).push
            ((Node.raw left).addNote ⟨.note, "AlacarteContainer not decoded"⟩))) := by
  constructor
  · intro data p hp r stop
    have hrest := Read.rest_advance_ofOctets data hp
    have hstop := Read.rest_advance_ofOctets data (Nat.le_refl (8 * data.length))
    rw [List.drop_eq_nil_of_le (Nat.le_of_eq (Bits.length_ofOctets data))] at hstop
    have hwords : ∀ n ≤ 8 * data.length, Machine.Reading.rest ((Reader.ofOctets data).advance n) =
        Machine.untrapped (Read.rest ((Reader.ofOctets data).advance n)) := fun n hn =>
      Machine.Reading.follows_rest.eq_untrapped (Reader.inside_advance_ofOctets hn)
    refine ⟨_, hrest, ?_, ?_, Bits.leftAligned_toOctets _, hstop, ?_⟩
    · rw [hwords p hp, hrest]
      rfl
    · rw [Bits.length_toOctets, List.length_drop, Bits.length_ofOctets]
    · rw [hwords _ (Nat.le_refl _), hstop]
      rfl
  · intro body s t r halacarte hcontainers
    obtain ⟨hr, hle⟩ := Dissect.containers_advance (resolve_appends d invoke) hcontainers
    have hlast := Dissect.undecoded_advance "alacarte" "AlacarteContainer not decoded" body hle t
    rw [← hr] at hlast
    refine ⟨_, Bits.leftAligned_toOctets _, ?_⟩
    have hschema := (Dissect.schema_alacarte halacarte).trans
      ((EStateM.bind_of_ok hcontainers _).trans hlast)
    have hparse := Dissect.parse_of (o := .ok ()) hschema
    rw [Reader.consumedOctets_advance, show (8 * body.length + 7) / 8 = body.length by omega] at hparse
    exact hparse

theorem undecoded_leftAligned_unaligned :
    let d := empty {}
    let body : Octets := 0x28 :: List.replicate 33 0 ++ [0x05, 0xa1]
    let s : Scene := { tree := Node.leaf "DENM" .none }
    let run := Dissect.read (.bits 3) >>= Components.decode (resolve d d.invoke) Schema.Denm.containers
    (∃ left, Read.rest ((Reader.ofOctets body).advance 273) = .ok left ((Reader.ofOctets body).advance 288) ∧
      left.length = 2) ∧
    ∃ (r : Reader) (t : Scene) (left : Octets), run ⟨.ofOctets body, s⟩ = .ok () ⟨r, t⟩ ∧ r.position = 273 ∧
      Bits.LeftAligned ((Bits.ofOctets body).drop 273) left ∧
      parseSchema d d.invoke Schema.Denm.schema body s =
        .ok 36 (t.emit ((Node.leaf "alacarte" .none).push
          ((Node.raw left).addNote ⟨.note, "AlacarteContainer not decoded"⟩))) := by
  intro d body s run
  obtain ⟨hrest, hbody⟩ := undecoded_leftAligned d d.invoke
  have houtcome : (run ⟨.ofOctets body, s⟩).outcome = .ok () := by decide +kernel
  have hposition : (run ⟨.ofOctets body, s⟩).state.reader.position = 273 := by decide +kernel
  obtain ⟨⟨r, t⟩, hrun⟩ := EStateM.Result.exists_of_outcome houtcome
  rw [hrun] at hposition
  have hr : r.position = 273 := hposition
  obtain ⟨left, hleft, hparse⟩ := hbody body s t r (by decide) hrun
  obtain ⟨last, hlast, -, hlength, -⟩ := hrest body 273 (by decide)
  rw [hr] at hleft
  exact ⟨⟨last, hlast, hlength.trans (by decide)⟩, r, t, left, hrun, hr, hleft, hparse⟩

end Dissector

end V2x
