import V2x.Proofs.Decode.Basic
import V2x.Schema.Decode

/-!
# Schemas as programs

A schema says what to read and what to show, whatever it is that reads and shows. `Interpreter.field`
runs a schema on operations of any kind; on those of a dissector it is the decoder
(`field_eq_decode`). Facts about other readings of a schema, such as which bits hold the payloads of
extensions, are facts about the same program.
-/

namespace V2x

/-- The operations that schemas are made of. -/
structure Interpreter (M : Type → Type) where
  read : {α : Type} → Per.Read α → M α
  emit : Node → M Unit
  under : String → M Unit → M Unit
  causeCode : M Unit
  subCauseCode : M Unit
  regionalExtension : Slot → M Unit

namespace Interpreter

variable {M : Type → Type} [Monad M] (I : Interpreter M)

def times (body : M Unit) : Nat → M Unit
  | 0 => pure ()
  | n + 1 => do
    body
    times body n

def emitAll (node : Octets → Node) : List Octets → M Unit
  | [] => pure ()
  | data :: more => do
    I.emit (node data)
    emitAll node more

def integer (name : String) (lower upper : Int) : M Unit := do
  let n ← I.read (.constrained lower upper)
  I.emit (Node.leaf name (if lower < 0 then .signed n else .unsigned n.toNat))

def extensibleInteger (name : String) (lower upper : Int) : M Unit := do
  let n ← I.read (.extensibleInteger name lower upper)
  I.emit (Node.leaf name (.signed n))

def enumerated (name : String) (labels : List String) (extensible : Bool) : M Nat := do
  let n ← I.read (.index labels.length extensible)
  I.emit (Node.leaf name (.enumerated n labels[n]?))
  return n

def octets (name : String) (count : Nat) : M Unit := do
  I.emit (Node.leaf name (.octets (← I.read (.octets count))))

def additions : Bool → M Unit
  | false => pure ()
  | true => do
    I.emitAll Node.raw (← I.read .additions)

def regionalList (slot : Slot) : M Unit := do
  let count ← I.read (.size 1 4)
  I.under "regional" (times (I.regionalExtension slot) count)

def undecoded (name remark : String) : M Unit := do
  let data ← I.read .rest
  I.under name (I.emit ((Node.raw data).addNote ⟨.note, remark⟩))

/-- A component that its presence bit covers. -/
def whether (present : List Bool) (body absent : M Unit) : M Unit :=
  if present.headD false then body else absent

mutual

def field : Field → M Unit
  | .integer name lower upper => I.integer name lower upper
  | .extensibleInteger name lower upper => I.extensibleInteger name lower upper
  | .enumerated name labels extensible => do
    let _ ← I.enumerated name labels extensible
  | .octets name count => I.octets name count
  | .causeCode => I.causeCode
  | .subCauseCode => I.subCauseCode
  | .sequence name extensible c =>
    I.under name do
      let extended ← I.read (.extensionBit extensible)
      let present ← I.read (.bits c.optionalCount)
      components c present
      I.additions extended
  | .sequenceOf name lower upper element =>
    I.under name do
      let count ← I.read (.size lower upper)
      times (field element) count
  | .choice name type extensible a =>
    I.under name do
      let index ← I.read (.index a.count extensible)
      alternatives type extensible index a index
  | .regionalExtension slot => I.regionalExtension slot
  | .regionalList slot => I.regionalList slot
  | .unsupported type => I.read (throw (.unsupported type))
  | .undecoded name remark => I.undecoded name remark

def components : Components → List Bool → M Unit
  | .done, _ => pure ()
  | .required f more, present => do
    field f
    components more present
  | .optional f more, present => do
    whether present (field f) (pure ())
    components more present.tail
  | .defaulted f absent more, present => do
    whether present (field f) (I.emit absent)
    components more present.tail

def alternatives (type : String) (extensible : Bool) (index : Nat) :
    Alternatives → Nat → M Unit
  | .done, _ =>
    if extensible then do
      I.emit (Node.raw (← I.read (.openType type)))
    else
      I.read (throw (.invalidChoice type index))
  | .or f _, 0 => field f
  | .or _ more, left + 1 => alternatives type extensible index more left

end

def schema (s : Schema) : M Unit := do
  let present ← I.read (.bits s.optionalCount)
  I.components s present

end Interpreter

namespace Dissect

def interpreter (resolve : Resolver) : Interpreter Dissect where
  read := read
  emit := emit
  under := under
  causeCode := causeCode
  subCauseCode := subCauseCode
  regionalExtension := regionalExtension resolve

variable (resolve : Resolver)

theorem times_eq (body : Dissect Unit) (n : Nat) : Interpreter.times body n = times n body := by
  induction n with
  | zero => rfl
  | succ n ih => exact congrArg (fun more => body >>= fun _ => more) ih

theorem emitAll_eq (node : Octets → Node) (data : List Octets) :
    (interpreter resolve).emitAll node data = data.forM fun d => emit (node d) := by
  induction data with
  | nil => rfl
  | cons d more ih => exact congrArg (fun more => emit (node d) >>= fun _ => more) ih

theorem additions_eq (extended : Bool) :
    (interpreter resolve).additions extended = additions extended := by
  cases extended with
  | false => rfl
  | true => exact congrArg (read .additions >>= ·) (funext fun _ => emitAll_eq resolve _ _)

theorem regionalList_eq (slot : Slot) :
    (interpreter resolve).regionalList slot = regionalList resolve slot := by
  unfold Interpreter.regionalList regionalList
  refine congrArg (read (.size 1 4) >>= ·) (funext fun count => ?_)
  exact congrArg (under "regional") (times_eq _ count)

mutual

/-- The interpreter of a dissector is its decoder. -/
theorem field_eq_decode : ∀ f : Field, (interpreter resolve).field f = f.decode resolve
  | .integer _ _ _ => rfl
  | .extensibleInteger _ _ _ => rfl
  | .enumerated _ _ _ => rfl
  | .octets _ _ => rfl
  | .causeCode => rfl
  | .subCauseCode => rfl
  | .sequence name extensible c => by
    unfold Interpreter.field Field.decode
    refine congrArg (under name) (congrArg (read (.extensionBit extensible) >>= ·) ?_)
    funext extended
    refine congrArg (read (.bits c.optionalCount) >>= ·) (funext fun present => ?_)
    rw [components_eq_decode c present, additions_eq]
  | .sequenceOf name lower upper element => by
    unfold Interpreter.field Field.decode
    refine congrArg (under name) (congrArg (read (.size lower upper) >>= ·) ?_)
    funext count
    rw [times_eq, field_eq_decode element]
  | .choice name type extensible a => by
    unfold Interpreter.field Field.decode
    refine congrArg (under name) (congrArg (read (.index a.count extensible) >>= ·) ?_)
    funext index
    rw [alternatives_eq_decode type extensible index a index]
  | .regionalExtension _ => rfl
  | .regionalList slot => regionalList_eq resolve slot
  | .unsupported _ => rfl
  | .undecoded _ _ => rfl

theorem components_eq_decode : ∀ (c : Components) (present : List Bool),
    (interpreter resolve).components c present = c.decode resolve present
  | .done, _ => rfl
  | .required f more, present => by
    unfold Interpreter.components Components.decode
    rw [field_eq_decode f, components_eq_decode more present]
  | .optional f more, present => by
    unfold Interpreter.components Components.decode
    rw [field_eq_decode f, components_eq_decode more present.tail]
    unfold Interpreter.whether
    split <;> rfl
  | .defaulted f absent more, present => by
    unfold Interpreter.components Components.decode
    rw [field_eq_decode f, components_eq_decode more present.tail]
    unfold Interpreter.whether
    split <;> rfl

theorem alternatives_eq_decode (type : String) (extensible : Bool) (index : Nat) :
    ∀ (a : Alternatives) (left : Nat),
      (interpreter resolve).alternatives type extensible index a left =
        a.decode resolve type extensible index left
  | .done, _ => by
    unfold Interpreter.alternatives Alternatives.decode
    split <;> rfl
  | .or f _, 0 => field_eq_decode f
  | .or _ more, left + 1 => alternatives_eq_decode type extensible index more left

end

theorem schema_eq_decode (s : Schema) :
    (interpreter resolve).schema s = Schema.decode resolve s :=
  congrArg (read (.bits s.optionalCount) >>= ·) (funext fun present =>
    components_eq_decode resolve s present)

end Dissect

end V2x
