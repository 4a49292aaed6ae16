import V2x.Proofs.Decode.Basic
import V2x.Proofs.Machine.Reader
import V2x.Schema.Decode

/-!
# Decoding in words

The decoder of schemas on the reads of a machine, which checks where it takes a number as unsigned and where it
chooses by an index. A schema whose numbers fit into words (`Field.fits`) is decoded as by the decoder on
unbounded numbers.
-/

namespace V2x

mutual

/-- Whether all numbers of the field fit into words, every index that is read chooses something, and nothing is
unsupported but the `types`. -/
def Field.fits (types : List String) : Field → Bool
  | .integer _ lower upper | .extensibleInteger _ lower upper => Machine.Spacious lower upper
  | .enumerated _ labels _ => labels.length < 2 ^ 32
  | .octets _ count => 8 * count < 2 ^ 64
  | .sequence _ _ c => c.optionalCount ≤ 64 && c.fits types
  | .sequenceOf _ lower upper element => Machine.Spacious lower upper && element.fits types
  | .choice _ _ extensible a =>
    a.count < 2 ^ 32 && (extensible || 2 ^ Bits.width a.count ≤ a.count) && a.fits types
  | .unsupported type => type ∈ types
  | .causeCode | .subCauseCode | .regionalExtension _ | .regionalList _ | .undecoded _ _ => true

def Components.fits (types : List String) : Components → Bool
  | .done => true
  | .required f more => f.fits types && more.fits types
  | .optional f more => f.fits types && more.fits types
  | .defaulted f _ more => f.fits types && more.fits types

def Alternatives.fits (types : List String) : Alternatives → Bool
  | .done => true
  | .or f more => f.fits types && more.fits types

end

/-- A fault of the encoding, or that a part of one of the types is unsupported. -/
def Fault.expected (types : List String) (fault : Fault) : Prop :=
  fault.ofEncoding ∨ ∃ type ∈ types, fault = .unsupported type

namespace Machine

abbrev Decoding (α : Type) := Checked Dissect.State α

namespace Decoding

variable {α β : Type}

def read (r : Reading α) : Decoding α := fun s =>
  match r s.reader with
  | .ok a reader => .ok a { s with reader }
  | .error halt reader => .error halt { s with reader }

/-- What does no arithmetic needs no checks. -/
def unchecked (m : Dissect α) : Decoding α := fun s =>
  match m s with
  | .ok a after => .ok a after
  | .error fault after => .error (.fault fault) after

def emit (n : Node) : Decoding Unit :=
  unchecked (Dissect.emit n)

def under (name : String) (body : Decoding α) : Decoding α := fun s =>
  match body { s with scene := s.scene.descend name } with
  | .ok a after => .ok a { after with scene := s.scene.ascend after.scene }
  | .error halt after => .error halt { after with scene := s.scene.ascend after.scene }

def times : Nat → Decoding Unit → Decoding Unit
  | 0, _ => pure ()
  | n + 1, body => do
    body
    times n body

def integer (name : String) (lower upper : Int) : Decoding Unit := do
  let n ← read (.constrained lower upper)
  if lower < 0 then
    emit (Node.leaf name (.signed n))
  else
    emit (Node.leaf name (.unsigned (← unsigned n)))

def extensibleInteger (name : String) (lower upper : Int) : Decoding Unit := do
  let n ← read (.extensibleInteger name lower upper)
  emit (Node.leaf name (.signed n))

def enumerated (name : String) (labels : List String) (extensible : Bool) : Decoding Unit := do
  let n ← read (.index labels.length extensible)
  emit (Node.leaf name (.enumerated n labels[n]?))

def octets (name : String) (count : Nat) : Decoding Unit := do
  emit (Node.leaf name (.octets (← read (.octets count))))

def causeCode : Decoding Unit := do
  let code ← octet (← read (.bits 8))
  unchecked (Dissect.modifyContext fun c => { c with cause := some code })
  emit (Node.leaf "causeCode" (.enumerated code.toNat (Cause.label? code)))

def subCauseCode : Decoding Unit := do
  let vocabulary := (← unchecked Dissect.context).vocabulary
  let code ← octet (← read (.bits 8))
  emit (Node.leaf vocabulary.field (.enumerated code.toNat (vocabulary.label? code)))

def additions (extended : Bool) : Decoding Unit := do
  if extended then
    (← read .additions).forM fun data => emit (Node.raw data)

def regionalExtension (resolve : Resolver) (slot : Slot) : Decoding Unit :=
  under "RegionalExtension" do
    let region ← octet (← read (.bits 8))
    emit (Node.leaf "regionId" (.enumerated region.toNat (Region.label? region)))
    let payload ← read (.openType "regExtValue")
    unchecked (Dissect.surely (Dissect.resolving (resolve slot payload) region))

def regionalList (resolve : Resolver) (slot : Slot) : Decoding Unit := do
  let count ← read (.size 1 4)
  under "regional" (times count (regionalExtension resolve slot))

def undecoded (name remark : String) : Decoding Unit := do
  let data ← read .rest
  under name (emit ((Node.raw data).addNote ⟨.note, remark⟩))

mutual

def field (resolve : Resolver) : Field → Decoding Unit
  | .integer name lower upper => integer name lower upper
  | .extensibleInteger name lower upper => extensibleInteger name lower upper
  | .enumerated name labels extensible => enumerated name labels extensible
  | .octets name count => octets name count
  | .causeCode => causeCode
  | .subCauseCode => subCauseCode
  | .sequence name extensible c =>
    under name do
      let extended ← read (.extensionBit extensible)
      let present ← read (.presence c.optionalCount)
      components resolve present c 0
      additions extended
  | .sequenceOf name lower upper element =>
    under name do
      let count ← read (.size lower upper)
      times count (field resolve element)
  | .choice name type extensible a =>
    under name do
      let index ← read (.index a.count extensible)
      check (extensible = true ∨ index < a.count) .bounds
      alternatives resolve type extensible index a index
  | .regionalExtension slot => regionalExtension resolve slot
  | .regionalList slot => regionalList resolve slot
  | .unsupported type => throw (.fault (.unsupported type))
  | .undecoded name remark => undecoded name remark

/-- Decodes components, of which the first optional one has the presence bit `i`. -/
def components (resolve : Resolver) (present : Presence) : Components → (i : Nat) → Decoding Unit
  | .done, _ => pure ()
  | .required f more, i => do
    field resolve f
    components resolve present more i
  | .optional f more, i => do
    if ← present.isPresent i then field resolve f
    components resolve present more (i + 1)
  | .defaulted f absent more, i => do
    if ← present.isPresent i then field resolve f else emit absent
    components resolve present more (i + 1)

def alternatives (resolve : Resolver) (type : String) (extensible : Bool) (index : Nat) :
    Alternatives → (left : Nat) → Decoding Unit
  | .done, _ =>
    if extensible then do
      emit (Node.raw (← read (.openType type)))
    else
      throw (.fault (.invalidChoice type index))
  | .or f _, 0 => field resolve f
  | .or _ more, left + 1 => alternatives resolve type extensible index more left

end

def schema (resolve : Resolver) (s : Schema) : Decoding Unit := do
  let present ← read (.presence s.optionalCount)
  components resolve present s 0

def parse (body : Decoding Unit) (data : Octets) : Checked Scene Nat := fun scene =>
  match body ⟨Per.Reader.ofOctets data, scene⟩ with
  | .ok _ s => .ok s.reader.consumedOctets s.scene
  | .error halt s => .error halt s.scene

/-! ## Agreement -/

/-- A decoder in words agrees with one on unbounded numbers, and where it fails the encoding is at fault or one of
the types is not supported. -/
def Obeys (types : List String) (V : α → β → Prop) (m : Decoding α) (n : Dissect β) : Prop :=
  Agrees (fun s => s.reader.Inside) (Fault.expected types) V m n

variable {types : List String} {V : α → β → Prop}

theorem obeys_read {m : Reading α} {n : Per.Read β} (h : Follows V m n) :
    Obeys types V (read m) (Dissect.read n) := by
  intro s hs
  have hrun := h s.reader hs
  unfold read Dissect.read
  cases hn : n s.reader with
  | ok b reader =>
    rw [hn] at hrun
    obtain ⟨hinside, a, hm, hv⟩ := hrun
    simp only [hm]
    exact ⟨hinside, a, rfl, hv⟩
  | error fault reader =>
    rw [hn] at hrun
    obtain ⟨hinside, hm, hfault⟩ := hrun
    simp only [hm]
    exact ⟨hinside, trivial, .inl hfault⟩

theorem obeys_unchecked {m : Dissect α} (h : ∀ s, ∃ a scene, m s = .ok a ⟨s.reader, scene⟩) :
    Obeys types Eq (unchecked m) m := by
  intro s hs
  obtain ⟨a, scene, hm⟩ := h s
  unfold unchecked
  simp only [hm]
  exact ⟨hs, a, rfl, rfl⟩

theorem obeys_emit (n : Node) : Obeys types Eq (emit n) (Dissect.emit n) :=
  obeys_unchecked fun _ => ⟨_, _, rfl⟩

theorem Obeys.under {m : Decoding α} {n : Dissect β} (h : Obeys types V m n) (name : String) :
    Obeys types V (under name m) (Dissect.under name n) := by
  intro s hs
  have hrun := h { s with scene := s.scene.descend name } hs
  unfold Decoding.under Dissect.under
  cases hn : n { s with scene := s.scene.descend name } with
  | ok b t =>
    rw [hn] at hrun
    obtain ⟨hinside, a, hm, hv⟩ := hrun
    simp only [hm]
    exact ⟨hinside, a, rfl, hv⟩
  | error fault t =>
    rw [hn] at hrun
    obtain ⟨hinside, hm, hfault⟩ := hrun
    simp only [hm]
    exact ⟨hinside, trivial, hfault⟩

theorem Obeys.times {m : Decoding Unit} {n : Dissect Unit} (h : Obeys types Eq m n) (count : Nat) :
    Obeys types Eq (times count m) (Dissect.times count n) := by
  induction count with
  | zero => exact Agrees.pure rfl
  | succ count ih => exact h.bind fun _ _ _ => ih

/-! ## Single fields -/

theorem obeys_integer (name : String) {lower upper : Int} (h : Spacious lower upper) :
    Obeys types Eq (integer name lower upper) (Dissect.integer name lower upper) := by
  refine (obeys_read (Reading.follows_constrained h)).bind fun n _ hn => ?_
  obtain ⟨rfl, hlower, hlt⟩ := hn
  by_cases hsign : lower < 0
  · simp only [if_pos hsign]
    exact obeys_emit _
  · simp only [if_neg hsign]
    rw [unsigned_of (by omega), pure_bind]
    exact obeys_emit _

theorem obeys_extensibleInteger (name : String) {lower upper : Int} (h : Spacious lower upper) :
    Obeys types Eq (extensibleInteger name lower upper)
      (Dissect.extensibleInteger name lower upper) := by
  refine (obeys_read (Reading.follows_extensibleInteger h)).bind fun n _ hn => ?_
  subst hn
  exact obeys_emit _

theorem obeys_enumerated (name : String) {labels : List String} (extensible : Bool)
    (h : labels.length < 2 ^ 32) :
    Obeys types Eq (enumerated name labels extensible) (do
      let _ ← Dissect.enumerated name labels extensible) := by
  unfold Dissect.enumerated
  rw [bind_assoc]
  refine (obeys_read (Reading.follows_index h)).bind fun n _ hn => ?_
  obtain ⟨rfl, -⟩ := hn
  exact obeys_emit _

theorem obeys_octets (name : String) {count : Nat} (h : 8 * count < 2 ^ 64) :
    Obeys types Eq (octets name count) (Dissect.octets name count) := by
  refine (obeys_read (Reading.follows_octets h)).bind fun data _ hdata => ?_
  subst hdata
  exact obeys_emit _

theorem obeys_number {f : UInt8 → Decoding Unit} {g : Nat → Dissect Unit}
    (h : ∀ n, Obeys types Eq (f (UInt8.ofNat n)) (g n)) :
    Obeys types Eq (do f (← octet (← read (.bits 8)))) (Dissect.read (.number 8) >>= g) := by
  refine (obeys_read (Reading.follows_number (by decide))).bind fun n _ hn => ?_
  obtain ⟨rfl, hlt⟩ := hn
  rw [octet_of hlt, pure_bind]
  exact h _

theorem obeys_causeCode : Obeys types Eq causeCode Dissect.causeCode := by
  unfold causeCode Dissect.causeCode
  apply obeys_number
  intro code
  exact (obeys_unchecked fun _ => ⟨_, _, rfl⟩).bind fun _ _ _ => obeys_emit _

theorem obeys_subCauseCode : Obeys types Eq subCauseCode Dissect.subCauseCode := by
  have hcontext : Obeys types Eq (unchecked Dissect.context) Dissect.context :=
    obeys_unchecked fun _ => ⟨_, _, rfl⟩
  refine hcontext.bind fun c _ hc => ?_
  subst hc
  apply obeys_number
  intro code
  exact obeys_emit _

theorem obeys_emitAll (data : List Octets) :
    Obeys types Eq (data.forM fun d => emit (Node.raw d))
      (data.forM fun d => Dissect.emit (Node.raw d)) := by
  induction data with
  | nil => exact Agrees.pure rfl
  | cons d data ih => exact (obeys_emit _).bind fun _ _ _ => ih

theorem obeys_additions (extended : Bool) :
    Obeys types Eq (additions extended) (Dissect.additions extended) := by
  cases extended with
  | false => exact Agrees.pure rfl
  | true =>
    refine (obeys_read Reading.follows_additions).bind fun data _ hdata => ?_
    subst hdata
    exact obeys_emitAll data

theorem obeys_regionalExtension (resolve : Resolver) (slot : Slot) :
    Obeys types Eq (regionalExtension resolve slot) (Dissect.regionalExtension resolve slot) := by
  rw [Dissect.regionalExtension_eq]
  apply Obeys.under
  apply obeys_number
  intro region
  refine (obeys_emit _).bind fun _ _ _ => ?_
  refine (obeys_read (Reading.follows_openType _)).bind fun payload _ hpayload => ?_
  subst hpayload
  exact obeys_unchecked fun _ => ⟨_, _, rfl⟩

theorem obeys_regionalList (resolve : Resolver) (slot : Slot) :
    Obeys types Eq (regionalList resolve slot) (Dissect.regionalList resolve slot) := by
  refine (obeys_read (Reading.follows_size (by decide))).bind fun count _ hcount => ?_
  subst hcount
  exact ((obeys_regionalExtension resolve slot).times count).under _

theorem obeys_undecoded (name remark : String) :
    Obeys types Eq (undecoded name remark) (Dissect.undecoded name remark) := by
  refine (obeys_read Reading.follows_rest).bind fun data _ hdata => ?_
  subst hdata
  exact (obeys_emit _).under name

/-! ## Schemas -/

mutual

theorem obeys_field (resolve : Resolver) : ∀ f : Field, f.fits types = true →
    Obeys types Eq (field resolve f) (f.decode resolve)
  | .integer name _ _, h => obeys_integer name (of_decide_eq_true h)
  | .extensibleInteger name _ _, h => obeys_extensibleInteger name (of_decide_eq_true h)
  | .enumerated name _ extensible, h => obeys_enumerated name extensible (of_decide_eq_true h)
  | .octets name _, h => obeys_octets name (of_decide_eq_true h)
  | .causeCode, _ => obeys_causeCode
  | .subCauseCode, _ => obeys_subCauseCode
  | .sequence name extensible c, h => by
    simp only [Field.fits, Bool.and_eq_true, decide_eq_true_eq] at h
    obtain ⟨hcount, hc⟩ := h
    unfold field Field.decode
    apply Obeys.under
    refine (obeys_read (Reading.follows_extensionBit extensible)).bind fun extended _ he => ?_
    subst he
    refine (obeys_read (Reading.follows_presence hcount)).bind fun p l hp => ?_
    obtain ⟨rfl, hlength⟩ := hp
    have hcomponents := obeys_components resolve (by omega) c hc (l := l) 0
    exact hcomponents.bind fun _ _ _ => obeys_additions extended
  | .sequenceOf name lower upper element, h => by
    simp only [Field.fits, Bool.and_eq_true, decide_eq_true_eq] at h
    obtain ⟨hroom, helement⟩ := h
    unfold field Field.decode
    apply Obeys.under
    refine (obeys_read (Reading.follows_size hroom)).bind fun count _ hcount => ?_
    subst hcount
    exact (obeys_field resolve element helement).times count
  | .choice name type extensible a, h => by
    simp only [Field.fits, Bool.and_eq_true, Bool.or_eq_true, decide_eq_true_eq] at h
    obtain ⟨⟨hcount, hcovered⟩, ha⟩ := h
    unfold field Field.decode
    apply Obeys.under
    refine (obeys_read (Reading.follows_index hcount)).bind fun index _ hindex => ?_
    obtain ⟨rfl, -, hroot⟩ := hindex
    have hbound : extensible = true ∨ index < a.count := by
      cases hext : extensible with
      | true => exact .inl rfl
      | false =>
        simp only [hext, Bool.false_eq_true, false_or] at hroot hcovered
        exact .inr (Nat.lt_of_lt_of_le hroot hcovered)
    rw [check_of hbound, pure_bind]
    exact obeys_alternatives resolve type index a ha index hbound
  | .regionalExtension slot, _ => obeys_regionalExtension resolve slot
  | .regionalList slot, _ => obeys_regionalList resolve slot
  | .unsupported type, h => Agrees.throw (.inr ⟨type, of_decide_eq_true h, rfl⟩)
  | .undecoded name remark, _ => obeys_undecoded name remark

theorem obeys_components (resolve : Resolver) {l : List Bool} (hl : l.length ≤ 64) :
    ∀ c : Components, c.fits types = true → ∀ i : Nat,
      Obeys types Eq (components resolve ⟨Bits.toNat l, l.length⟩ c i) (c.decode resolve (l.drop i))
  | .done, _, _ => Agrees.pure rfl
  | .required f more, h, i => by
    simp only [Components.fits, Bool.and_eq_true] at h
    exact (obeys_field resolve f h.1).bind fun _ _ _ => obeys_components resolve hl more h.2 i
  | .optional f more, h, i => by
    simp only [Components.fits, Bool.and_eq_true] at h
    have hmore := obeys_components resolve hl more h.2 (i + 1)
    unfold components Components.decode
    rw [List.tail_drop, Reading.isPresent_eq hl, pure_bind]
    cases (l.drop i).headD false with
    | false => exact hmore
    | true => exact (obeys_field resolve f h.1).bind fun _ _ _ => hmore
  | .defaulted f absent more, h, i => by
    simp only [Components.fits, Bool.and_eq_true] at h
    have hmore := obeys_components resolve hl more h.2 (i + 1)
    unfold components Components.decode
    rw [List.tail_drop, Reading.isPresent_eq hl, pure_bind]
    cases (l.drop i).headD false with
    | false => exact (obeys_emit absent).bind fun _ _ _ => hmore
    | true => exact (obeys_field resolve f h.1).bind fun _ _ _ => hmore

theorem obeys_alternatives (resolve : Resolver) (type : String) {extensible : Bool} (index : Nat) :
    ∀ a : Alternatives, a.fits types = true → ∀ left : Nat, extensible = true ∨ left < a.count →
      Obeys types Eq (alternatives resolve type extensible index a left)
        (a.decode resolve type extensible index left)
  | .done, _, left, hleft => by
    obtain rfl : extensible = true := hleft.resolve_right (Nat.not_lt_zero left)
    refine (obeys_read (Reading.follows_openType type)).bind fun data _ hdata => ?_
    subst hdata
    exact obeys_emit _
  | .or f _, h, 0, _ => by
    simp only [Alternatives.fits, Bool.and_eq_true] at h
    exact obeys_field resolve f h.1
  | .or _ more, h, left + 1, hleft => by
    simp only [Alternatives.fits, Bool.and_eq_true] at h
    exact obeys_alternatives resolve type index more h.2 left (hleft.imp_right Nat.lt_of_succ_lt_succ)

end

theorem obeys_schema (resolve : Resolver) {s : Schema} (hcount : s.optionalCount ≤ 64)
    (h : Components.fits types s = true) :
    Obeys types Eq (schema resolve s) (Schema.decode resolve s) := by
  refine (obeys_read (Reading.follows_presence hcount)).bind fun p l hp => ?_
  obtain ⟨rfl, hlength⟩ := hp
  exact obeys_components resolve (by omega) s h (l := l) 0

end Decoding

end Machine

end V2x
