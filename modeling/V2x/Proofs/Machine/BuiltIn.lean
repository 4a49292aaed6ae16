import V2x.Proofs.Decode.Position
import V2x.Proofs.Dissector.Registered
import V2x.Proofs.Machine.Attributes

/-!
# The built-in grammars stay within words

Whatever octets they are given, the built-in parsers do the same in words as on unbounded numbers
(`inWords_builtIn`), never leave their octets and choose among the alternatives they have. One of them fails where
an encoding goes on with something unsupported, which is the attributes of a node.
-/

namespace V2x

open Per (Reader Read)

/-! ## The table of node offsets -/

namespace Machine.Decoding

/-- The forms of a node offset as two numbers of so many bits. -/
def offsetForms : List (String × Nat) :=
  [("node-XY1", 10), ("node-XY2", 11), ("node-XY3", 12), ("node-XY4", 13), ("node-XY5", 14),
   ("node-XY6", 16)]

/-- Two numbers of `width` bits, whose bounds come of a shift. -/
def offset (form : String) (width : Nat) : Decoding Unit := do
  let half ← signed (← shiftLeft 1 (← unsigned (width - 1)))
  under form do
    integer "x" (-half) (half - 1)
    integer "y" (-half) (half - 1)

/-- A node offset, whose form is looked up by the index that was read. -/
def nodeOffset (resolve : Resolver) (name : String) : Decoding Unit :=
  under name do
    let index ← read (.index 8 false)
    if index ≤ 5 then
      check (index < offsetForms.length) .bounds
      let (form, width) := offsetForms.getD index ("", 1)
      offset form width
    else if index = 6 then
      under "node-LatLon" do
        integer "lon" (-1799999999) 1800000001
        integer "lat" (-900000000) 900000001
    else if index = 7 then
      under "regional" (regionalExtension resolve .nodeOffsetPointXY)
    else
      throw (.fault (.invalidChoice "NodeOffsetPointXY" index))

/-- A sequence without optional components reads nothing but them. -/
theorem decode_sequence (resolve : Resolver) (name : String) {c : Components} (h : c.optionalCount = 0) :
    (Field.sequence name false c).decode resolve = Dissect.under name (c.decode resolve []) := by
  have hnone : Dissect.read (Read.bits 0) = pure [] := by
    rw [Read.bits_zero]
    rfl
  have hadditions : Dissect.additions false = pure () := rfl
  have hextension : Dissect.read (Read.extensionBit false) = pure false := rfl
  unfold Field.decode
  rw [h, hextension, hnone, pure_bind, pure_bind, hadditions, bind_pure_unit]

theorem decode_last (resolve : Resolver) (f : Field) (present : List Bool) :
    (Components.required f .done).decode resolve present = f.decode resolve := by
  rw [Components.decode]
  exact bind_pure_unit

variable {types : List String}

theorem obeys_pair {f g : Field} {m k : Decoding Unit} {resolve : Resolver} (name : String)
    (hf : Obeys types Eq m (f.decode resolve)) (hg : Obeys types Eq k (g.decode resolve)) :
    Obeys types Eq (under name do m; k)
      ((Field.sequence name false (.required f (.required g .done))).decode resolve) := by
  rw [decode_sequence resolve name rfl]
  apply Obeys.under
  refine hf.bind fun _ _ _ => ?_
  rw [decode_last]
  exact hg

theorem spacious_half {places : Nat} (h : places < 62) :
    Spacious (-(2 ^ places : Nat)) ((2 ^ places : Nat) - 1) := by
  have hpos : 0 < 2 ^ places := Nat.two_pow_pos places
  have hhalf : 2 ^ places < 2 ^ 62 := Nat.pow_lt_pow_right (by decide) h
  have hcount : ((2 ^ places : Nat) - 1 - -((2 ^ places : Nat) : Int) + 1).toNat = 2 ^ (places + 1) := by
    rw [Nat.pow_succ]
    omega
  have hwidth : Bits.width (2 ^ (places + 1)) ≤ places + 1 := Bits.width_le_iff.mpr (Nat.le_refl _)
  have hwords : 2 ^ Bits.width (2 ^ (places + 1)) ≤ 2 ^ places * 2 :=
    Nat.pow_le_pow_right (by decide) hwidth
  have hcast : ((2 ^ Bits.width (2 ^ (places + 1)) : Nat) : Int) =
      2 ^ Bits.width (2 ^ (places + 1)) := by push_cast; rfl
  unfold Spacious
  rw [hcount]
  omega

theorem obeys_offset (resolve : Resolver) (form : String) {width : Nat} (hpos : 0 < width)
    (hle : width < 63) : Obeys types Eq (offset form width) ((Schema.offset form width).decode resolve) := by
  obtain ⟨places, rfl⟩ : ∃ places, width = places + 1 := ⟨width - 1, by omega⟩
  have hhalf : 2 ^ places < 2 ^ 62 := Nat.pow_lt_pow_right (by decide) (by omega)
  have hcast : ((2 ^ places : Nat) : Int) = 2 ^ places := by push_cast; rfl
  have hplaces : ((places + 1 : Nat) - 1 : Int).toNat = places := by omega
  have hshift : 1 * 2 ^ places % 2 ^ 64 = 2 ^ places := by omega
  have hspacious : Spacious (-(2 ^ places : Nat)) ((2 ^ places : Nat) - 1) := spacious_half (by omega)
  unfold offset Schema.offset
  rw [unsigned_of (by omega), pure_bind, hplaces, shiftLeft_of (by omega), pure_bind, hshift,
    signed_of (by omega), pure_bind, Nat.add_sub_cancel, ← hcast]
  exact obeys_pair form (obeys_integer "x" hspacious) (obeys_integer "y" hspacious)

theorem obeys_nodeOffset (resolve : Resolver) (name : String) :
    Obeys types Eq (nodeOffset resolve name) ((Schema.nodeOffset name).decode resolve) := by
  unfold nodeOffset Schema.nodeOffset Field.decode
  apply Obeys.under
  refine (obeys_read (Reading.follows_index (by decide))).bind fun index _ hindex => ?_
  obtain ⟨rfl, -, hroot⟩ := hindex
  have hlt : index < 2 ^ Bits.width 8 := hroot.resolve_left Bool.false_ne_true
  have hwidth : 2 ^ Bits.width 8 = 8 := by decide
  rw [hwidth] at hlt
  by_cases hform : index ≤ 5
  · have hlookup : index < offsetForms.length := Nat.lt_succ_of_le hform
    rw [if_pos hform, check_of hlookup, pure_bind]
    match index, hform with
    | 0, _ => exact obeys_offset resolve "node-XY1" (by decide) (by decide)
    | 1, _ => exact obeys_offset resolve "node-XY2" (by decide) (by decide)
    | 2, _ => exact obeys_offset resolve "node-XY3" (by decide) (by decide)
    | 3, _ => exact obeys_offset resolve "node-XY4" (by decide) (by decide)
    | 4, _ => exact obeys_offset resolve "node-XY5" (by decide) (by decide)
    | 5, _ => exact obeys_offset resolve "node-XY6" (by decide) (by decide)
  · rw [if_neg hform]
    obtain rfl | rfl : index = 6 ∨ index = 7 := by omega
    · rw [if_pos rfl]
      exact obeys_pair "node-LatLon" (obeys_integer "lon" (by decide)) (obeys_integer "lat" (by decide))
    · rw [if_neg (by decide), if_pos rfl]
      show Obeys _ _ _ ((Field.sequence "regional" false _).decode resolve)
      rw [decode_sequence resolve "regional" rfl, decode_last]
      exact (obeys_regionalExtension resolve _).under "regional"

end Machine.Decoding

/-! ## Parsers -/

/-- The frames that grammars share. -/
def Schema.frames : List (String → Field) :=
  [ Schema.altitude, Schema.nodeOffset, Schema.intersectionReference, Schema.accessPoint,
    Schema.responseStatus, Schema.vehicleRole, Schema.vehicleId, Schema.requestor ]

namespace Machine

/-- What holds of a parser, whatever it is given. -/
structure InWords (d : Dissector) (invoke : Invoke) (s : Schema) (data : Octets) (scene : Scene) : Prop where
  /-- No arithmetic leaves the words, and in words the parser comes to the same. -/
  checked : Decoding.parse (Decoding.schema (d.resolve invoke) s) data scene =
    untrapped (d.parseSchema invoke s data scene)
  /-- The reader has not gone past the octets, also where the parser has failed. -/
  inside : ∃ k ≤ 8 * data.length,
    (Schema.decode (d.resolve invoke) s ⟨.ofOctets data, scene⟩).state.reader =
      (Reader.ofOctets data).advance k
  consumed {n : Nat} {after : Scene} (h : d.parseSchema invoke s data scene = .ok n after) :
    n ≤ data.length
  /-- Every index that is read chooses something. -/
  chosen (type : String) (index : Nat) :
    (d.parseSchema invoke s data scene).outcome ≠ .error (.invalidChoice type index)
  /-- Only the attributes of nodes are not supported. -/
  supported (type : String) :
    (d.parseSchema invoke s data scene).outcome = .error (.unsupported type) ↔
      s = Schema.GroupC.connectionTrajectory ∧ type = "NodeAttributeSetXY" ∧
        Schema.GroupC.ReachesAttributes data

/-- What holds of a frame, wherever it is read. -/
structure FrameInWords (resolve : Resolver) (f : Field) (s : Dissect.State) : Prop where
  checked : Decoding.field resolve f s = untrapped (f.decode resolve s)
  inside : (f.decode resolve s).state.reader.Inside
  fault {fault : Fault} (h : (f.decode resolve s).outcome = .error fault) : fault.ofEncoding

theorem parse_eq {body : Decoding Unit} {n : Dissect Unit} {data : Octets} {scene : Scene}
    (h : body ⟨.ofOctets data, scene⟩ = untrapped (n ⟨.ofOctets data, scene⟩)) :
    Decoding.parse body data scene = untrapped (Dissect.parse n data scene) := by
  unfold Decoding.parse Dissect.parse
  rw [h]
  cases n ⟨.ofOctets data, scene⟩ <;> rfl

theorem outcome_parse_eq_error {body : Dissect Unit} {data : Octets} {scene : Scene} {fault : Fault} :
    (Dissect.parse body data scene).outcome = .error fault ↔
      (body ⟨.ofOctets data, scene⟩).outcome = .error fault := by
  unfold Dissect.parse
  cases body ⟨.ofOctets data, scene⟩ <;> simp

theorem fits_builtIn {s : Schema} (h : s ∈ Schema.builtIn) :
    s.optionalCount ≤ 64 ∧ Components.fits ["NodeAttributeSetXY"] s = true ∧
      (s = Schema.GroupC.connectionTrajectory ∨ Components.fits [] s = true) := by
  have hfits : ∀ s ∈ Schema.builtIn,
      s.optionalCount ≤ 64 ∧ Components.fits ["NodeAttributeSetXY"] s = true := by decide
  refine ⟨(hfits s h).1, (hfits s h).2, ?_⟩
  simp only [Schema.builtIn, List.mem_cons, List.not_mem_nil, or_false] at h
  rcases h with rfl | rfl | rfl | rfl | rfl | rfl | rfl | rfl | rfl | rfl
  case inr.inr.inr.inl => exact .inl rfl
  all_goals exact .inr (by decide)

theorem fits_frames {frame : String → Field} (h : frame ∈ Schema.frames) (name : String) :
    (frame name).fits [] = true := by
  simp only [Schema.frames, List.mem_cons, List.not_mem_nil, or_false] at h
  rcases h with rfl | rfl | rfl | rfl | rfl | rfl | rfl | rfl <;> rfl

theorem expected_nil {fault : Fault} : fault.expected [] ↔ fault.ofEncoding := by
  simp [Fault.expected]

theorem inWords {s : Schema} (h : s ∈ Schema.builtIn) (d : Dissector) (invoke : Invoke) (data : Octets)
    (scene : Scene) : InWords d invoke s data scene := by
  obtain ⟨hcount, hfits, hplain⟩ := fits_builtIn h
  have hstart : (Reader.ofOctets data).Inside := Nat.zero_le _
  have hobeys := Decoding.obeys_schema (d.resolve invoke) hcount hfits
  constructor
  case checked => exact parse_eq (hobeys.eq_untrapped hstart)
  case inside =>
    obtain ⟨k, hk, hreader⟩ := Dissect.advances_schema (d.resolve invoke) s ⟨.ofOctets data, scene⟩
    rw [Reader.remaining_ofOctets] at hk
    exact ⟨k, hk, hreader⟩
  case consumed =>
    intro n after hrun
    exact (Dissect.advances_schema (d.resolve invoke) s).consumed_le hrun
  case chosen =>
    intro type index hfault
    have hexpected := hobeys.fault_of_error hstart (outcome_parse_eq_error.mp hfault)
    simp [Fault.expected, Fault.ofEncoding] at hexpected
  case supported =>
    intro type
    have hreads := (Dissect.reads_schema (d.resolve invoke) s ⟨.ofOctets data, scene⟩).1
    refine outcome_parse_eq_error.trans ?_
    rcases hplain with rfl | hplain
    · rw [hreads, Schema.GroupC.schema_unsupported_iff]
      simp
    · have hsupported := Decoding.obeys_schema (d.resolve invoke) hcount hplain
      constructor
      · intro hfault
        exact (expected_nil.mp (hsupported.fault_of_error hstart hfault)).elim
      · rintro ⟨rfl, -⟩
        exact absurd hplain (by decide)

/-- The built-in parsers and the frames they share stay within words and within their octets on any input, also
where a frame looks up its form in a table. -/
theorem inWords_builtIn :
    (∀ s ∈ Schema.builtIn, ∀ d invoke data scene, InWords d invoke s data scene) ∧
      (∀ frame ∈ Schema.frames, ∀ name resolve s, s.reader.Inside →
        FrameInWords resolve (frame name) s) ∧
      ∀ name resolve s, s.reader.Inside →
        Decoding.nodeOffset resolve name s = untrapped ((Schema.nodeOffset name).decode resolve s) := by
  refine ⟨fun s hs d invoke data scene => inWords hs d invoke data scene, ?_, ?_⟩
  · intro frame hframe name resolve s hs
    have hobeys := Decoding.obeys_field resolve (frame name) (fits_frames hframe name)
    refine ⟨hobeys.eq_untrapped hs, (hobeys s hs).1, fun hfault => ?_⟩
    exact expected_nil.mp (hobeys.fault_of_error hs hfault)
  · intro name resolve s hs
    have hobeys : Decoding.Obeys [] Eq _ _ := Decoding.obeys_nodeOffset resolve name
    exact hobeys.eq_untrapped hs

/-- A node with attributes is reached, but not where its place is cut short; an addition that leaves the words is
rejected. -/
theorem inWords_builtIn_samples :
    let d := Dissector.empty {}
    let scene : Scene := { tree := Node.leaf "extension" .none }
    Schema.GroupC.ReachesAttributes [0x00, 0x80, 0x00, 0x00] ∧
      ¬ Schema.GroupC.ReachesAttributes [0x00, 0x80, 0x00] ∧
      (Decoding.parse (Decoding.schema (d.resolve d.invoke) Schema.GroupC.control)
        [0x61, 0x1f, 0xff, 0xff, 0xff, 0xff, 0xff, 0xff, 0xff, 0xe0] scene).outcome =
        .error (.fault (.outOfRange "enumerated extension" (2 ^ 63 - 1))) ∧
      FrameInWords (d.resolve d.invoke) (Schema.altitude "altitude") ⟨.ofOctets [0xff], scene⟩ := by
  intro d scene
  obtain ⟨hparsers, hframes, -⟩ := inWords_builtIn
  have htrajectory : Schema.GroupC.connectionTrajectory ∈ Schema.builtIn := by simp [Schema.builtIn]
  have hcontrol : Schema.GroupC.control ∈ Schema.builtIn := by simp [Schema.builtIn]
  refine ⟨?_, fun hreaches => ?_, ?_, ?_⟩
  · have hparser := hparsers _ htrajectory d d.invoke [0x00, 0x80, 0x00, 0x00] scene
    exact ((hparser.supported "NodeAttributeSetXY").mp (by decide +kernel)).2.2
  · have hparser := hparsers _ htrajectory d d.invoke [0x00, 0x80, 0x00] scene
    exact absurd ((hparser.supported _).mpr ⟨rfl, rfl, hreaches⟩) (by decide +kernel)
  · rw [(hparsers _ hcontrol d d.invoke _ scene).checked]
    decide +kernel
  · exact hframes Schema.altitude (by simp [Schema.frames]) "altitude" _ _ (Nat.zero_le _)

end Machine

end V2x
