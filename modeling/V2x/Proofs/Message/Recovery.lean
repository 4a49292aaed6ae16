import V2x.Proofs.Message.Frames
import V2x.Schema.Frames

/-!
# Decoding what has been written

A decoder recovers an item if, on what is written for it, it shows what is shown for it and takes just
that much, whatever comes after. The kinds of fields recover the items of the same kinds.
-/

namespace V2x

open Per (Read Short WriteStep)
open Per.WriteStep (encodings)

/-- On a reader that has `bits` next, the decoder takes just these, gives `a`, and does to the scene
what `effect` does. -/
def Dissect.Performs {α : Type} (m : Dissect α) (bits : List Bool) (effect : Scene → Scene)
    (a : α) : Prop :=
  ∀ (r : Per.Reader) (tail : List Bool) (s : Scene), r.rest = bits ++ tail →
    m ⟨r, s⟩ = .ok a ⟨r.advance bits.length, effect s⟩

def Dissect.Recovers (resolve : Resolver) (m : Dissect Unit) (items : List Item) : Prop :=
  m.Performs (encodings (Item.stepsIn items)) (Item.playIn resolve items) ()

namespace Dissect

variable {α β : Type} {bits more : List Bool} {effect effect' : Scene → Scene} {a : α} {b : β}

theorem performs_pure (a : α) : (pure a : Dissect α).Performs [] id a := fun _ _ _ _ => rfl

/-- The second decoder need only be known in the scenes that the first one leaves. -/
theorem Performs.after {m : Dissect α} {f : α → Dissect β} (hm : m.Performs bits effect a)
    (hf : ∀ (r : Per.Reader) (tail : List Bool) (s : Scene), r.rest = more ++ tail →
      f a ⟨r, effect s⟩ = .ok b ⟨r.advance more.length, effect' (effect s)⟩) :
    (m >>= f).Performs (bits ++ more) (effect' ∘ effect) b := by
  intro r tail s hr
  rw [List.append_assoc] at hr
  have hrest : (r.advance bits.length).rest = more ++ tail := by
    rw [Per.Reader.rest_advance, hr, List.drop_left]
  rw [EStateM.bind_of_ok (hm r _ s hr), hf _ tail s hrest, Per.Reader.advance_advance,
    List.length_append]
  rfl

theorem Performs.bind {m : Dissect α} {f : α → Dissect β} (hm : m.Performs bits effect a)
    (hf : (f a).Performs more effect' b) :
    (m >>= f).Performs (bits ++ more) (effect' ∘ effect) b :=
  hm.after fun r tail s => hf r tail (effect s)

theorem Performs.then {m : Dissect α} {m' : Dissect β} (hm : m.Performs bits effect a)
    (hm' : m'.Performs more effect' b) :
    (do let _ ← m; m').Performs (bits ++ more) (effect' ∘ effect) b :=
  hm.bind hm'

theorem performs_read {r : Read α} (h : r.Finds bits a) : (read r).Performs bits id a := by
  intro reader tail s hr
  unfold read
  rw [h reader tail hr]
  rfl

theorem performs_emit (n : Node) : (emit n).Performs [] (Scene.emit n) () := fun _ _ _ _ => rfl

theorem performs_surely (act : Surely Unit) :
    (surely act).Performs [] (fun s => (act s).2) () := fun _ _ _ _ => rfl

theorem Performs.under {m : Dissect α} (h : m.Performs bits effect a) (name : String) :
    (under name m).Performs bits (fun s => s.ascend (effect (s.descend name))) a := by
  intro r tail s hr
  exact under_of (o := .ok a) (h r tail (s.descend name) hr)

/-! ## Items one after another -/

variable {resolve : Resolver} {m m' : Dissect Unit} {items items' : List Item}

theorem recovers_pure : Recovers resolve (pure ()) [] := performs_pure ()

theorem Recovers.after (h : m.Recovers resolve items)
    (h' : ∀ (r : Per.Reader) (tail : List Bool) (s : Scene),
      r.rest = encodings (Item.stepsIn items') ++ tail →
        m' ⟨r, Item.playIn resolve items s⟩ =
          .ok () ⟨r.advance (encodings (Item.stepsIn items')).length,
            Item.playIn resolve items' (Item.playIn resolve items s)⟩) :
    Recovers resolve (do m; m') (items ++ items') := by
  have hplay : Item.playIn resolve (items ++ items') =
      Item.playIn resolve items' ∘ Item.playIn resolve items :=
    funext (Item.playIn_append resolve items items')
  unfold Recovers
  rw [Item.stepsIn_append, WriteStep.encodings_append, hplay]
  exact Performs.after h h'

theorem Recovers.append (h : m.Recovers resolve items) (h' : m'.Recovers resolve items') :
    Recovers resolve (do m; m') (items ++ items') :=
  h.after fun r tail s => h' r tail (Item.playIn resolve items s)

/-- Bits that tell how to read on are followed by what they tell. -/
theorem Recovers.control {r : Read α} {f : α → Dissect Unit} {steps : List WriteStep}
    (h : r.Finds (encodings steps) a) (hf : (f a).Recovers resolve items) :
    Recovers resolve (read r >>= f) (.control steps :: items) := by
  have := (performs_read h).bind hf
  unfold Recovers
  rwa [Item.stepsIn, WriteStep.encodings_append]

theorem Recovers.under (h : m.Recovers resolve items) (name : String) :
    (under name m).Recovers resolve [.group name items] := by
  have := Performs.under h name
  unfold Recovers
  rwa [Item.stepsIn, Item.stepsIn, List.append_nil]

/-- What tells how to read on may also be read before the group is begun. -/
theorem Recovers.control_under {r : Read α} {f : α → Dissect Unit} {steps : List WriteStep}
    (h : r.Finds (encodings steps) a) (hf : (f a).Recovers resolve items) (name : String) :
    Recovers resolve (do
      let a ← read r
      Dissect.under name (f a)) [.group name (.control steps :: items)] := by
  have := Performs.bind (f := fun a => Dissect.under name (f a)) (performs_read h)
    (Performs.under hf name)
  have hsteps : Item.stepsIn [.group name (.control steps :: items)] =
      steps ++ Item.stepsIn items := List.append_nil _
  unfold Recovers
  rwa [hsteps, WriteStep.encodings_append]

theorem recovers_times {item : α → Item} (h : ∀ a, m.Recovers resolve [item a]) (elements : List α) :
    (times elements.length m).Recovers resolve (elements.map item) := by
  induction elements with
  | nil => exact recovers_pure
  | cons a elements ih => exact (h a).append ih

theorem finds_encodings {r : Read α} {step : WriteStep} (h : r.Finds step.encoding a) :
    r.Finds (encodings [step]) a := by
  rwa [WriteStep.encodings_cons, WriteStep.encodings_nil, List.append_nil]

/-- A value that has been found is shown. -/
theorem recovers_field {r : Read α} {steps : List WriteStep} (name : String)
    {value : α → Value} {v : Value} (h : r.Finds (encodings steps) a) (hv : value a = v)
    (shown : v ≠ .none) :
    Recovers resolve (do
      let n ← read r
      emit (Node.leaf name (value n))) [.field name v shown [] steps] := by
  subst hv
  have hemit : (emit (Node.leaf name (value a))).Performs [] (Scene.emit _) () := performs_emit _
  have := Performs.bind (f := fun n => emit (Node.leaf name (value n))) (performs_read h) hemit
  unfold Recovers
  rwa [Item.stepsIn, Item.stepsIn, Item.steps, List.append_nil, ← List.append_nil (encodings steps)]

end Dissect

open Dissect

theorem Small.finds : ∀ n : Small, Read.normallySmall.Finds (encodings n.steps) n.value
  | .short n => by
    have := Per.Read.finds_normallySmall n.2
    simpa [Small.steps, Small.value, WriteStep.encodings, WriteStep.encoding] using this
  | .counted count n hcount hn => by
    have := Per.Read.finds_normallySmall_counted hcount hn
    simpa [Small.steps, Small.value, WriteStep.encodings, WriteStep.encoding] using this

theorem Enumerated.finds {roots : Nat} :
    ∀ e : Enumerated roots, (Read.index roots true).Finds (encodings e.steps) e.value
  | .root i => finds_encodings (Per.Read.finds_index i.2 true)
  | .addition n h => Per.Read.finds_index_addition n.finds h

namespace Dissect

variable {resolve : Resolver}

/-! ## Extension additions -/

theorem stepsIn_map_addition (data : List Short) :
    Item.stepsIn (data.map Item.addition) = data.map fun octets : Short => .openType octets := by
  induction data with
  | nil => rfl
  | cons first data ih =>
    rw [List.map_cons, Item.stepsIn, ih]
    rfl

theorem performs_emitAll (resolve : Resolver) (data : List Short) :
    Performs ((data.map Subtype.val).forM fun octets => emit (Node.raw octets)) []
      (Item.playIn resolve (data.map Item.addition)) () := by
  induction data with
  | nil => exact performs_pure ()
  | cons first data ih => exact (performs_emit (Node.raw first)).bind ih

theorem recovers_additions (a : Option Additions) :
    (additions a.isSome).Recovers resolve (Item.additions a) := by
  cases a with
  | none => exact recovers_pure
  | some a =>
    have hread := Per.Read.finds_additions a.2.1 a.2.2
    have := Performs.bind (f := fun data => data.forM fun octets => emit (Node.raw octets))
      (performs_read hread) (performs_emitAll resolve (a.1.filterMap id))
    have hbits : encodings (Item.stepsIn (Item.additions (some a))) =
        ((Per.Encoding.flag false ++ Per.Encoding.number 6 (a.1.length - 1)) ++
          (a.1.map Option.isSome ++
            (a.1.filterMap id).flatMap fun octets : Short => Per.Encoding.openType octets)) ++
        [] := by
      rw [Item.additions, Item.stepsIn, stepsIn_map_addition, Item.steps]
      simp [WriteStep.encodings, WriteStep.encoding, List.flatMap_map, Per.Encoding.flag,
        ← List.map_eq_flatMap]
    unfold Recovers
    rw [hbits]
    exact this


/-! ## Regional extensions -/

theorem recovers_extension (slot : Slot) (e : Extension) :
    (regionalExtension resolve slot).Recovers resolve [e.item slot] := by
  have hregion := performs_read (r := .number 8) (Per.Read.finds_number e.region.toNat_lt)
  have hshow := performs_emit (Node.leaf (Item.regionEntry e.region).1 (Item.regionEntry e.region).2)
  have hpayload := performs_read (Per.Read.finds_openType "regExtValue" e.payload.2)
  have hresolve := performs_surely (resolving (resolve slot e.payload) e.region)
  have hcontent := hshow.then (hpayload.bind (f := fun payload =>
    surely (resolving (resolve slot payload) e.region)) hresolve)
  have := hregion.bind (f := fun n => do
    emit (Node.leaf "regionId" (.enumerated (UInt8.ofNat n).toNat (Region.label? (UInt8.ofNat n))))
    let payload ← read (.openType "regExtValue")
    surely (resolving (resolve slot payload) (UInt8.ofNat n))) (by rwa [UInt8.ofNat_toNat])
  exact this.under "RegionalExtension"

theorem recovers_regionalList (slot : Slot) (es : Extensions) :
    (regionalList resolve slot).Recovers resolve [es.item slot] := by
  have hread : (Read.size 1 4).Finds (encodings [.constrained es.1.length 1 4]) es.1.length :=
    finds_encodings (Per.Read.finds_size (by decide) es.2.1 es.2.2)
  exact Recovers.control_under hread (recovers_times (recovers_extension slot) es.1) "regional"

end Dissect

/-! ## Single fields -/

open Dissect

namespace Field

variable {resolve : Resolver}

theorem recovers_integer (name : String) {lower upper : Int} (hb : Per.Read.Bounds lower upper)
    (n : Within lower upper) :
    (decode resolve (.integer name lower upper)).Recovers resolve [.number name n] := by
  have hread : (Read.constrained lower upper).Finds (encodings [.constrained n lower upper]) n.1 :=
    finds_encodings (Per.Read.finds_constrained hb n.2.1 n.2.2)
  exact recovers_field name hread rfl _

theorem recovers_extensibleInteger (name : String) {lower upper : Int}
    (hb : Per.Read.Bounds lower upper) (n : Extensible lower upper) :
    (decode resolve (.extensibleInteger name lower upper)).Recovers resolve [.extensible name n] := by
  have hread : (Read.extensibleInteger name lower upper).Finds (encodings n.steps) n.value := by
    simp only [Extensible.steps, WriteStep.encodings]
    cases n with
    | inside n =>
      have := Per.Read.finds_extensibleInteger_inside name hb n.2.1 n.2.2
      simpa [WriteStep.encoding, Extensible.value] using this
    | outside count n hcount hn =>
      have : (Read.extensibleInteger name lower upper).Finds _ n :=
        Per.Read.finds_extensibleInteger_outside name hcount.1 hcount.2 hn
      simpa [WriteStep.encoding, Extensible.value] using this
  exact recovers_field name hread rfl _

theorem recovers_enumerated_of (name : String) {labels : List String} {extensible : Bool}
    {steps : List WriteStep} {n : Nat} {label : Option String}
    (hread : (Read.index labels.length extensible).Finds (encodings steps) n)
    (hlabel : labels[n]? = label) :
    (decode resolve (.enumerated name labels extensible)).Recovers resolve
      [.field name (.enumerated n label) nofun [] steps] := by
  have : Dissect.Recovers resolve (do
      let n ← read (.index labels.length extensible)
      emit (Node.leaf name (.enumerated n labels[n]?)))
      [.field name (.enumerated n label) nofun [] steps] :=
    recovers_field name hread (congrArg (Value.enumerated n) hlabel) _
  simpa only [decode, Dissect.enumerated, bind_assoc, pure_bind, bind_pure_unit] using this

theorem recovers_enumerated (name : String) {labels : List String} (i : Fin labels.length) :
    (decode resolve (.enumerated name labels false)).Recovers resolve [.named name labels i] :=
  recovers_enumerated_of name (finds_encodings (Per.Read.finds_index i.2 false))
    (List.getElem?_eq_getElem i.2)

theorem recovers_extensibleEnumerated (name : String) {labels : List String}
    (e : Enumerated labels.length) :
    (decode resolve (.enumerated name labels true)).Recovers resolve
      [.enumerated name labels e] :=
  recovers_enumerated_of name e.finds rfl

theorem recovers_octets (name : String) {count : Nat}
    (data : { data : Octets // data.length = count }) :
    (decode resolve (.octets name count)).Recovers resolve [.octets name data] := by
  obtain ⟨data, rfl⟩ := data
  have hread : (Read.octets data.length).Finds (encodings [.octets data]) data :=
    finds_encodings (Per.Read.finds_octets data)
  exact recovers_field name hread rfl _

end Field

/-! ## Sequences -/

/-- The components recover the parts if they are told which of them are there. -/
structure Components.Recovers (resolve : Resolver) (c : Components) (parts : List Item.Part) :
    Prop where
  optionalCount_eq : c.optionalCount = (parts.flatMap Item.Part.present).length
  decode : (c.decode resolve (parts.flatMap Item.Part.present)).Recovers resolve
    (parts.flatMap Item.Part.items)

namespace Components

variable {resolve : Resolver} {f : Field} {more : Components} {parts : List Item.Part} {α : Type}

theorem recovers_done : Components.done.Recovers resolve [] := ⟨rfl, recovers_pure⟩

theorem Recovers.required {item : Item} (hf : (f.decode resolve).Recovers resolve [item])
    (h : more.Recovers resolve parts) :
    (Components.required f more).Recovers resolve (.required item :: parts) :=
  ⟨h.optionalCount_eq, hf.append h.decode⟩

/-- A component that is left out need not be one that can be written. -/
theorem Recovers.omitted (h : more.Recovers resolve parts) :
    (Components.optional f more).Recovers resolve (.optional none :: parts) :=
  ⟨congrArg (· + 1) h.optionalCount_eq, recovers_pure.append h.decode⟩

theorem Recovers.optional {item : α → Item} (hf : ∀ a, (f.decode resolve).Recovers resolve [item a])
    (v : Option α) (h : more.Recovers resolve parts) :
    (Components.optional f more).Recovers resolve (.optional (v.map item) :: parts) := by
  cases v with
  | none => exact h.omitted
  | some a => exact ⟨congrArg (· + 1) h.optionalCount_eq, (hf a).append h.decode⟩

theorem Recovers.defaulted {item : α → Item} {name remark : String} {n : Nat} {absent : Node}
    (hf : ∀ a, (f.decode resolve).Recovers resolve [item a])
    (habsent : absent = (Node.leaf name (.unsigned n)).addNote ⟨.note, remark⟩)
    (v : Option α) (h : more.Recovers resolve parts) :
    (Components.defaulted f absent more).Recovers resolve
      (.defaulted (v.map item) (.absent name n remark) :: parts) := by
  subst habsent
  refine ⟨congrArg (· + 1) h.optionalCount_eq, ?_⟩
  cases v with
  | none =>
    have : (emit _).Recovers resolve [.absent name n remark] := performs_emit _
    exact this.append h.decode
  | some a => exact (hf a).append h.decode

theorem encodings_map_flag (bits : List Bool) : encodings (bits.map .flag) = bits := by
  simp [WriteStep.encodings, WriteStep.encoding, List.flatMap_map, Per.Encoding.flag]

theorem Recovers.finds_presence {c : Components} (h : c.Recovers resolve parts) :
    (Read.bits c.optionalCount).Finds
      (encodings ((parts.flatMap Item.Part.present).map .flag))
      (parts.flatMap Item.Part.present) := by
  rw [encodings_map_flag, h.optionalCount_eq]
  exact Per.Read.finds_bits _

theorem Recovers.message {c : Components} (h : c.Recovers resolve parts) :
    (Schema.decode resolve c).Recovers resolve (Item.message parts) :=
  Dissect.Recovers.control h.finds_presence h.decode

/-- What stands in a sequence behind its extension bit. -/
theorem Recovers.body {c : Components} (h : c.Recovers resolve parts) (a : Option Additions) :
    Dissect.Recovers resolve (do
      let present ← read (.bits c.optionalCount)
      c.decode resolve present
      additions a.isSome) (Item.message parts ++ Item.additions a) :=
  Dissect.Recovers.control h.finds_presence (h.decode.append (recovers_additions a))

end Components

namespace Field

variable {resolve : Resolver} {c : Components} {parts : List Item.Part}

theorem recovers_sequence_of {extensible : Bool} {steps : List WriteStep}
    {a : Option Additions} (hread : (Read.extensionBit extensible).Finds (encodings steps) a.isSome)
    (name : String) (h : c.Recovers resolve parts) :
    (decode resolve (.sequence name extensible c)).Recovers resolve
      [.group name (.control steps :: (Item.message parts ++ Item.additions a))] :=
  (Dissect.Recovers.control hread (h.body a)).under name

theorem recovers_sequence (name : String) (h : c.Recovers resolve parts) :
    (decode resolve (.sequence name false c)).Recovers resolve [.sequence name parts] := by
  have hread : (Read.extensionBit false).Finds (encodings []) (none : Option Additions).isSome :=
    Per.Read.finds_pure false
  have := recovers_sequence_of hread name h
  rwa [Item.additions, List.append_nil] at this

theorem recovers_extensibleSequence (name : String) (a : Option Additions)
    (h : c.Recovers resolve parts) :
    (decode resolve (.sequence name true c)).Recovers resolve [.extensibleSequence name a parts] := by
  have hread : (Read.extensionBit true).Finds (encodings [.flag a.isSome]) a.isSome :=
    finds_encodings (Per.Read.finds_flag a.isSome)
  exact recovers_sequence_of hread name h

theorem recovers_sequenceOf (name : String) {lower upper : Nat} {α : Type} {item : α → Item}
    {element : Field} (hb : Per.Read.Bounds lower upper)
    (h : ∀ a, (element.decode resolve).Recovers resolve [item a]) (elements : Counted lower upper α) :
    (decode resolve (.sequenceOf name lower upper element)).Recovers resolve [.list name item elements] := by
  have hread : (Read.size lower upper).Finds
      (encodings [.constrained elements.1.length lower upper]) elements.1.length :=
    finds_encodings (Per.Read.finds_size hb elements.2.1 elements.2.2)
  exact (Dissect.Recovers.control hread (recovers_times h elements.1)).under name

/-! ## Choices -/

theorem recovers_addition (type : String) (data : Short) :
    Dissect.Recovers resolve (do
      emit (Node.raw (← read (.openType type)))) [.addition data] := by
  have hread : (Read.openType type).Finds (encodings [.openType data]) data.1 :=
    finds_encodings (Per.Read.finds_openType type data.2)
  exact recovers_field "data" hread rfl _

theorem recovers_choice {name type : String} {extensible : Bool} {a : Alternatives} {index : Nat}
    {steps : List WriteStep} {item : Item}
    (hread : (Read.index a.count extensible).Finds (encodings steps) index)
    (h : (a.decode resolve type extensible index index).Recovers resolve [item]) :
    (decode resolve (.choice name type extensible a)).Recovers resolve [.choice name steps item] :=
  (Dissect.Recovers.control (f := fun i => a.decode resolve type extensible i i) hread h).under name

theorem recovers_choice_addition {name type : String} {a : Alternatives} (n : Small)
    (hn : a.count + n.value < 2 ^ 64) (data : Short) :
    (decode resolve (.choice name type true a)).Recovers resolve
      [.choice name (.flag true :: n.steps) (.addition data)] := by
  refine recovers_choice (Per.Read.finds_index_addition n.finds hn) ?_
  rw [Alternatives.decode_of_le type true _ a (Nat.le_add_right _ _)]
  exact recovers_addition type data

/-! ## Frames that several messages share -/

theorem recovers_altitude (name : String) (a : Altitude) :
    ((Schema.altitude name).decode resolve).Recovers resolve [a.item name] :=
  recovers_sequence name <|
    .required (recovers_integer "value" (by decide) a.value) <|
    .required (recovers_enumerated "confidence" a.confidence)
    Components.recovers_done

theorem recovers_causeCode (code : UInt8) : Dissect.causeCode.Recovers resolve [.causeCode code] := by
  have hread : (Read.number 8).Finds (encodings [.bits code.toNat 8]) code.toNat :=
    finds_encodings (Per.Read.finds_number code.toNat_lt)
  intro r tail s hr
  unfold Dissect.causeCode
  rw [EStateM.bind_of_ok (performs_read hread r tail s hr), UInt8.ofNat_toNat]
  rfl

/-- A sub-cause code is named by the cause of the context. -/
theorem subCauseCode_of_cause (c : CauseCode) {s : Scene} (hs : s.context.cause = some c.cause)
    {r : Per.Reader} {tail : List Bool}
    (hr : r.rest = encodings (Item.stepsIn [c.subCauseItem]) ++ tail) :
    Dissect.subCauseCode ⟨r, s⟩ =
      .ok () ⟨r.advance (encodings (Item.stepsIn [c.subCauseItem])).length,
        Item.playIn resolve [c.subCauseItem] s⟩ := by
  have hread : (Read.number 8).Finds (encodings [.bits c.subCause.toNat 8]) c.subCause.toNat :=
    finds_encodings (Per.Read.finds_number c.subCause.toNat_lt)
  have hvocabulary : s.context.vocabulary = Cause.vocabularyFor c.cause := by
    rw [Context.vocabulary, hs]
  have hcontext : context ⟨r, s⟩ = .ok s.context ⟨r, s⟩ := rfl
  unfold Dissect.subCauseCode
  rw [EStateM.bind_of_ok hcontext, hvocabulary,
    EStateM.bind_of_ok (performs_read hread r tail s hr), UInt8.ofNat_toNat]
  rfl

theorem recovers_causeCodes (c : CauseCode) :
    (Components.required .causeCode (.required .subCauseCode .done)).Recovers resolve
      [.required (.causeCode c.cause), .required c.subCauseItem] := by
  have hboth : Dissect.Recovers resolve (do
      Dissect.causeCode
      Dissect.subCauseCode) ([.causeCode c.cause] ++ [c.subCauseItem]) :=
    (recovers_causeCode c.cause).after fun _ _ _ hr => subCauseCode_of_cause c rfl hr
  refine ⟨rfl, ?_⟩
  simp only [Components.decode, decode, bind_pure_unit]
  exact hboth

theorem recovers_cause (name : String) (c : CauseCode) :
    ((Schema.cause name).decode resolve).Recovers resolve [c.item name] :=
  recovers_extensibleSequence name c.additions (recovers_causeCodes c)

end Field

end V2x
