import V2x.Proofs.Decode.Reading
import V2x.Proofs.Machine.Decoder
import V2x.Schema.GroupC

/-!
# The attributes of nodes

A connection trajectory lists nodes, each of which may have attributes, and those are not supported. Reading of it
fails with something unsupported exactly where it comes to the attributes of a node (`schema_unsupported_iff`): all
other reads fail for what is wrong with the encoding (`Plain`).
-/

namespace V2x

open Per (Reader Read)

namespace Per.Read

variable {α β : Type}

/-- The read stays within the octets, and where it fails the encoding is at fault. -/
def Plain (n : Read α) : Prop :=
  ∀ r : Reader, r.Inside →
    (n r).state.Inside ∧ ∀ fault, (n r).outcome = .error fault → fault.ofEncoding

theorem Plain.pure (a : α) : (Pure.pure a : Read α).Plain :=
  fun _ hr => ⟨hr, nofun⟩

theorem Plain.bind {n : Read α} {f : α → Read β} (h : n.Plain) (hf : ∀ a, (f a).Plain) :
    (n >>= f).Plain := by
  intro r hr
  have hfirst := h r hr
  cases hn : n r with
  | ok a t =>
    rw [hn] at hfirst
    rw [EStateM.bind_of_ok hn]
    exact hf a t hfirst.1
  | error fault t =>
    rw [hn] at hfirst
    rw [EStateM.bind_of_error hn]
    refine ⟨hfirst.1, fun fault' hfault => ?_⟩
    cases hfault
    exact hfirst.2 fault rfl

theorem bits_zero : bits 0 = pure [] :=
  funext fun _ => bits_of_le (Nat.zero_le _)

theorem length_of_bits {n : Nat} {l : List Bool} {r r' : Reader} (h : bits n r = .ok l r') :
    l.length = n := by
  rcases Nat.lt_or_ge r.remaining n with hn | hn
  · rw [bits_of_lt hn] at h
    cases h
  · rw [bits_of_le hn] at h
    cases h
    rw [List.length_take, Reader.length_rest]
    omega

/-- A sequence meets something unsupported if its second part does. -/
theorem Plain.unsupported_bind {n : Read α} {f : α → Read β} (h : n.Plain) {r : Reader} (hr : r.Inside)
    {type : String} : ((n >>= f) r).outcome = .error (.unsupported type) ↔
      ∃ a t, n r = .ok a t ∧ t.Inside ∧ (f a t).outcome = .error (.unsupported type) := by
  obtain ⟨hinside, hfault⟩ := h r hr
  cases hn : n r with
  | ok a t =>
    rw [hn] at hinside
    rw [EStateM.bind_of_ok hn]
    constructor
    · intro hf
      exact ⟨a, t, rfl, hinside, hf⟩
    · rintro ⟨a', t', heq, -, hf⟩
      cases heq
      exact hf
  | error fault t =>
    rw [EStateM.bind_of_error hn]
    constructor
    · rintro ⟨⟩
      exact (hfault (.unsupported type) (by rw [hn]; rfl)).elim
    · rintro ⟨a', t', heq, -⟩
      cases heq

/-- A sequence meets something unsupported if its first part does. -/
theorem unsupported_bind_plain {n : Read α} {f : α → Read β} {r : Reader} (hr : (n r).state.Inside)
    (h : ∀ a, (f a).Plain) {type : String} : ((n >>= f) r).outcome = .error (.unsupported type) ↔
      (n r).outcome = .error (.unsupported type) := by
  cases hn : n r with
  | ok a t =>
    rw [hn] at hr
    rw [EStateM.bind_of_ok hn]
    constructor
    · intro hf
      exact ((h a t hr).2 _ hf).elim
    · intro hok
      cases hok
  | error fault t =>
    rw [EStateM.bind_of_error hn]
    simp

end Per.Read

theorem Machine.Follows.plain {α β : Type} {V : α → β → Prop} {m : Machine.Reading α} {n : Read β}
    (h : Machine.Follows V m n) : n.Plain :=
  fun r hr => ⟨(h r hr).1, fun _ hfault => h.fault_of_error hr hfault⟩

/-! ## What fields read -/

theorem reads_expected {types : List String} {field : Field} (h : field.fits types = true) {r : Reader}
    (hr : r.Inside) : (Read.interpreter.field field r).state.Inside ∧
      ∀ fault, (Read.interpreter.field field r).outcome = .error fault → fault.expected types := by
  let resolve : Resolver := fun _ _ s => (0, s)
  let s : Dissect.State := ⟨r, ⟨{}, Node.leaf "" .none, []⟩⟩
  obtain ⟨houtcome, hreader⟩ := Dissect.reads_field resolve field s
  have hobeys := Machine.Decoding.obeys_field resolve field h
  refine ⟨hreader ▸ (hobeys s hr).1, fun fault hfault => ?_⟩
  exact hobeys.fault_of_error (s := s) hr (houtcome.trans hfault)

theorem plain_field {field : Field} (h : field.fits [] = true) : (Read.interpreter.field field).Plain := by
  intro r hr
  obtain ⟨hinside, hexpected⟩ := reads_expected h hr
  refine ⟨hinside, fun fault hfault => ?_⟩
  simpa [Fault.expected] using hexpected fault hfault

/-! ## The attributes of nodes -/

namespace Schema.GroupC

/-- A node of a connection trajectory. -/
def node : Field :=
  .sequence "NodeXY" true <|
    .required (nodeOffset "delta") <|
    .optional (.unsupported "NodeAttributeSetXY") .done

def nodes : Field :=
  .sequenceOf "nodes" 2 63 node

/-- What is read of the place of a node. -/
def delta : Read Unit :=
  Read.interpreter.field (nodeOffset "delta")

/-- Of so many nodes to read, those up to one with the attribute bit set can be read, and so can its place. -/
inductive Attributes : (left : Nat) → Reader → Prop
  | here {left : Nat} {extended : Bool} {r r₁ r₂ r₃ : Reader} (hextended : Read.flag r = .ok extended r₁)
    (hpresent : Read.bits 1 r₁ = .ok [true] r₂) (hdelta : delta r₂ = .ok () r₃) :
    Attributes (left + 1) r
  | later {left : Nat} {r r' : Reader} (hnode : Read.interpreter.field node r = .ok () r')
    (hmore : Attributes left r') : Attributes (left + 1) r

/-- Reading of the octets comes to the attributes of a node. -/
def ReachesAttributes (data : Octets) : Prop :=
  ∃ extended count r₁ r₂, Read.flag (.ofOctets data) = .ok extended r₁ ∧
    Read.size 2 63 r₁ = .ok count r₂ ∧ Attributes count r₂

theorem plain_delta : delta.Plain :=
  plain_field (by decide)

theorem plain_additions (extended : Bool) : (Read.interpreter.additions extended).Plain := by
  cases extended with
  | false => exact Read.Plain.pure ()
  | true =>
    refine Machine.Reading.follows_additions.plain.bind fun data => ?_
    induction data with
    | nil => exact Read.Plain.pure ()
    | cons d data ih => exact (Read.Plain.pure ()).bind fun _ => ih

theorem field_node : Read.interpreter.field node = (do
    let extended ← Read.flag
    let present ← Read.bits 1
    delta
    if present.headD false then throw (.unsupported "NodeAttributeSetXY")
    else Read.interpreter.additions extended) := by
  refine congrArg (Read.flag >>= ·) (funext fun extended => ?_)
  refine congrArg (Read.bits 1 >>= ·) (funext fun present => ?_)
  refine (bind_assoc delta _ _).trans (congrArg (delta >>= ·) (funext fun _ => ?_))
  unfold Interpreter.components Interpreter.whether
  cases present.headD false <;> rfl

variable {type : String}

theorem node_unsupported_iff {r : Reader} (hr : r.Inside) :
    (Read.interpreter.field node r).outcome = .error (.unsupported type) ↔
      type = "NodeAttributeSetXY" ∧ ∃ extended r₁ r₂ r₃, Read.flag r = .ok extended r₁ ∧
        Read.bits 1 r₁ = .ok [true] r₂ ∧ delta r₂ = .ok () r₃ := by
  have hpresent := (Machine.Reading.follows_bits (n := 1) (by decide)).plain
  rw [field_node]
  constructor
  · intro h
    obtain ⟨extended, r₁, hextended, hr₁, h⟩ :=
      (Machine.Reading.follows_flag.plain.unsupported_bind hr).mp h
    obtain ⟨present, r₂, hbits, hr₂, h⟩ := (hpresent.unsupported_bind hr₁).mp h
    obtain ⟨⟨⟩, r₃, hdelta, hr₃, h⟩ := (plain_delta.unsupported_bind hr₂).mp h
    obtain ⟨b, rfl⟩ := List.length_eq_one_iff.mp (Read.length_of_bits hbits)
    cases b with
    | false => exact (((plain_additions extended) r₃ hr₃).2 _ h).elim
    | true =>
      cases h
      exact ⟨rfl, extended, r₁, r₂, r₃, hextended, hbits, hdelta⟩
  · rintro ⟨rfl, extended, r₁, r₂, r₃, hextended, hbits, hdelta⟩
    rw [EStateM.bind_of_ok hextended, EStateM.bind_of_ok hbits, EStateM.bind_of_ok hdelta]
    rfl

theorem times_unsupported_iff {count : Nat} {r : Reader} (hr : r.Inside) :
    (Interpreter.times (Read.interpreter.field node) count r).outcome = .error (.unsupported type) ↔
      type = "NodeAttributeSetXY" ∧ Attributes count r := by
  induction count generalizing r with
  | zero =>
    constructor
    · intro h
      cases h
    · rintro ⟨-, h⟩
      cases h
  | succ count ih =>
    have hfits : Field.fits ["NodeAttributeSetXY"] node = true := by decide
    have hinside := (reads_expected hfits hr).1
    have hfirst : (Read.interpreter.field node r).outcome = .error (.unsupported type) ↔ _ :=
      node_unsupported_iff hr
    unfold Interpreter.times
    cases hnode : Read.interpreter.field node r with
    | error fault t =>
      rw [EStateM.bind_of_error hnode]
      rw [hnode] at hfirst
      refine hfirst.trans (and_congr_right fun _ => ?_)
      constructor
      · rintro ⟨extended, r₁, r₂, r₃, hextended, hbits, hdelta⟩
        exact .here hextended hbits hdelta
      · intro h
        cases h with
        | here hextended hbits hdelta => exact ⟨_, _, _, _, hextended, hbits, hdelta⟩
        | later hok => cases hnode.symm.trans hok
    | ok a t =>
      rw [EStateM.bind_of_ok hnode]
      rw [hnode] at hfirst hinside
      refine (ih hinside).trans (and_congr_right fun htype => ?_)
      constructor
      · exact .later hnode
      · intro h
        cases h with
        | here hextended hbits hdelta =>
          cases hfirst.mpr ⟨htype, _, _, _, _, hextended, hbits, hdelta⟩
        | later hok hmore =>
          cases hnode.symm.trans hok
          exact hmore

theorem nodes_unsupported_iff {r : Reader} (hr : r.Inside) :
    (Read.interpreter.field nodes r).outcome = .error (.unsupported type) ↔
      type = "NodeAttributeSetXY" ∧
        ∃ count r₁, Read.size 2 63 r = .ok count r₁ ∧ Attributes count r₁ := by
  have hsize : (Read.size 2 63).Plain := (Machine.Reading.follows_size (by decide)).plain
  refine (hsize.unsupported_bind hr).trans ?_
  constructor
  · rintro ⟨count, r₁, hcount, hr₁, h⟩
    obtain ⟨htype, hnodes⟩ := (times_unsupported_iff hr₁).mp h
    exact ⟨htype, count, r₁, hcount, hnodes⟩
  · rintro ⟨htype, count, r₁, hcount, hnodes⟩
    have hr₁ := (hsize r hr).1
    rw [hcount] at hr₁
    exact ⟨count, r₁, hcount, hr₁, (times_unsupported_iff hr₁).mpr ⟨htype, hnodes⟩⟩

/-- What is read of a connection trajectory after its nodes. -/
def afterNodes (extended : Bool) : Read Unit := do
  Read.interpreter.field (.integer "connectionID" 0 255)
  Read.interpreter.additions extended

theorem plain_afterNodes (extended : Bool) : (afterNodes extended).Plain :=
  (plain_field (by decide)).bind fun _ => plain_additions extended

theorem schema_connectionTrajectory : Read.interpreter.schema connectionTrajectory = (do
    let extended ← Read.flag
    Read.interpreter.field nodes
    afterNodes extended) := by
  unfold Interpreter.schema
  refine (congrArg (· >>= _) Read.bits_zero).trans ?_
  refine (pure_bind _ _).trans ((bind_pure _).trans ?_)
  refine congrArg (Read.flag >>= ·) (funext fun extended => ?_)
  refine (congrArg (· >>= _) Read.bits_zero).trans ((pure_bind _ _).trans ?_)
  refine (bind_assoc _ _ _).trans (congrArg (Read.interpreter.field nodes >>= ·) ?_)
  funext _
  exact (bind_assoc _ _ _).trans rfl

theorem schema_unsupported_iff (data : Octets) :
    (Read.interpreter.schema connectionTrajectory (.ofOctets data)).outcome =
        .error (.unsupported type) ↔
      type = "NodeAttributeSetXY" ∧ ReachesAttributes data := by
  have hstart : (Reader.ofOctets data).Inside := Nat.zero_le _
  have hfits : nodes.fits ["NodeAttributeSetXY"] = true := by decide
  have hnodes {r : Reader} (hr : r.Inside) : (Read.interpreter.field nodes r).state.Inside :=
    (reads_expected hfits hr).1
  rw [schema_connectionTrajectory]
  refine (Machine.Reading.follows_flag.plain.unsupported_bind hstart).trans ?_
  constructor
  · rintro ⟨extended, r, hextended, hr, h⟩
    obtain ⟨htype, count, r₁, hcount, hattributes⟩ := (nodes_unsupported_iff hr).mp
      ((Read.unsupported_bind_plain (hnodes hr) fun _ => plain_afterNodes extended).mp h)
    exact ⟨htype, extended, count, r, r₁, hextended, hcount, hattributes⟩
  · rintro ⟨htype, extended, count, r, r₁, hextended, hcount, hattributes⟩
    have hr := (Machine.Reading.follows_flag.plain _ hstart).1
    rw [hextended] at hr
    refine ⟨extended, r, hextended, hr, ?_⟩
    apply (Read.unsupported_bind_plain (hnodes hr) fun _ => plain_afterNodes extended).mpr
    exact (nodes_unsupported_iff hr).mpr ⟨htype, count, r₁, hcount, hattributes⟩

end Schema.GroupC

end V2x
