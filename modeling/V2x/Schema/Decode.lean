import V2x.Dissect

/-!
# Decoding by a schema

One decoder for all schemas. Sequences read their extension bit and presence bitmap first and their
additions last; lists read their length, choices their index.
-/

namespace V2x

mutual

def Field.decode (resolve : Resolver) : Field → Dissect Unit
  | .integer name lower upper => Dissect.integer name lower upper
  | .extensibleInteger name lower upper => Dissect.extensibleInteger name lower upper
  | .enumerated name labels extensible => do
    let _ ← Dissect.enumerated name labels extensible
  | .octets name count => Dissect.octets name count
  | .causeCode => Dissect.causeCode
  | .subCauseCode => Dissect.subCauseCode
  | .sequence name extensible components =>
    Dissect.under name do
      let extended ← Dissect.read (.extensionBit extensible)
      let present ← Dissect.read (.bits components.optionalCount)
      components.decode resolve present
      Dissect.additions extended
  | .sequenceOf name lower upper element =>
    Dissect.under name do
      let count ← Dissect.read (.size lower upper)
      Dissect.times count (element.decode resolve)
  | .choice name type extensible alternatives =>
    Dissect.under name do
      let index ← Dissect.read (.index alternatives.count extensible)
      alternatives.decode resolve type extensible index index
  | .regionalExtension slot => Dissect.regionalExtension resolve slot
  | .regionalList slot => Dissect.regionalList resolve slot
  | .unsupported type => throw (.unsupported type)
  | .undecoded name remark => Dissect.undecoded name remark

/-- Decodes the components that are required or marked in the bitmap `present`. -/
def Components.decode (resolve : Resolver) : Components → List Bool → Dissect Unit
  | .done, _ => pure ()
  | .required field more, present => do
    field.decode resolve
    more.decode resolve present
  | .optional field more, present => do
    if present.headD false then field.decode resolve
    more.decode resolve present.tail
  | .defaulted field absent more, present => do
    if present.headD false then field.decode resolve else Dissect.emit absent
    more.decode resolve present.tail

/-- Decodes the alternative that is `left` places further on; `index` counts from the first. -/
def Alternatives.decode (resolve : Resolver) (type : String) (extensible : Bool) (index : Nat) :
    Alternatives → (left : Nat) → Dissect Unit
  | .done, _ =>
    if extensible then do
      Dissect.emit (Node.raw (← Dissect.read (.openType type)))
    else
      throw (.invalidChoice type index)
  | .or field _, 0 => field.decode resolve
  | .or _ more, left + 1 => more.decode resolve type extensible index left

end

/-- Decodes a message or an extension on its own. -/
def Schema.decode (resolve : Resolver) (schema : Schema) : Dissect Unit := do
  let present ← Dissect.read (.bits schema.optionalCount)
  Components.decode resolve schema present

end V2x
