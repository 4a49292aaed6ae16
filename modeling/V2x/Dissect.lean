import V2x.Scene

/-!
# Decoding fields into a tree

A decoder reads bits and works in the scene of its parser. Fields that were shown before a fault
stay, and so do the context and the place the reader has reached.
-/

namespace V2x

structure Dissect.State where
  reader : Per.Reader
  scene : Scene

abbrev Dissect := EStateM Fault Dissect.State

/-- What stands ready to decode the payload of a regional extension. -/
abbrev Resolver := Slot → Octets → Surely Nat

namespace Dissect

def read {α : Type} (r : Per.Read α) : Dissect α := fun s =>
  match r s.reader with
  | .ok a reader => .ok a { s with reader }
  | .error fault reader => .error fault { s with reader }

def emit (n : Node) : Dissect Unit := fun s =>
  .ok () { s with scene := s.scene.emit n }

def context : Dissect Context := fun s =>
  .ok s.scene.context s

def modifyContext (f : Context → Context) : Dissect Unit := fun s =>
  .ok () { s with scene := { s.scene with context := f s.scene.context } }

/-- What `body` shows becomes one node, also when it fails. -/
def under {α : Type} (name : String) (body : Dissect α) : Dissect α := fun s =>
  match body { s with scene := s.scene.descend name } with
  | .ok a after => .ok a { after with scene := s.scene.ascend after.scene }
  | .error fault after => .error fault { after with scene := s.scene.ascend after.scene }

def surely {α : Type} (act : Surely α) : Dissect α := fun s =>
  .ok (act s.scene).1 { s with scene := (act s.scene).2 }

def run {α : Type} (r : Run α) : Dissect α := fun s =>
  match r s.scene with
  | .ok a scene => .ok a { s with scene }
  | .error fault scene => .error fault { s with scene }

def times : Nat → Dissect Unit → Dissect Unit
  | 0, _ => pure ()
  | n + 1, body => do
    body
    times n body

/-- Sets the active region and gives back the one before. -/
def setRegion (region : Option Region) : Dissect (Option Region) := do
  let before := (← context).region
  modifyContext fun c => { c with region }
  return before

/-- Runs a decoder on octets of its own; the result is the number of octets it has touched. -/
def parse (body : Dissect Unit) (data : Octets) : Run Nat := fun scene =>
  match body ⟨Per.Reader.ofOctets data, scene⟩ with
  | .ok _ s => .ok s.reader.consumedOctets s.scene
  | .error fault s => .error fault s.scene

/-! ## Single fields -/

def integer (name : String) (lower upper : Int) : Dissect Unit := do
  let n ← read (.constrained lower upper)
  emit (Node.leaf name (if lower < 0 then .signed n else .unsigned n.toNat))

def extensibleInteger (name : String) (lower upper : Int) : Dissect Unit := do
  let n ← read (.extensibleInteger name lower upper)
  emit (Node.leaf name (.signed n))

def enumerated (name : String) (labels : List String) (extensible : Bool) : Dissect Nat := do
  let n ← read (.index labels.length extensible)
  emit (Node.leaf name (.enumerated n labels[n]?))
  return n

def octets (name : String) (count : Nat) : Dissect Unit := do
  emit (Node.leaf name (.octets (← read (.octets count))))

def causeCode : Dissect Unit := do
  let code := UInt8.ofNat (← read (.number 8))
  modifyContext fun c => { c with cause := some code }
  emit (Node.leaf "causeCode" (.enumerated code.toNat (Cause.label? code)))

def subCauseCode : Dissect Unit := do
  let vocabulary := (← context).vocabulary
  let code := UInt8.ofNat (← read (.number 8))
  emit (Node.leaf vocabulary.field (.enumerated code.toNat (vocabulary.label? code)))

def additions (extended : Bool) : Dissect Unit := do
  if extended then
    (← read .additions).forM fun data => emit (Node.raw data)

/-- A region and its extension, which is decoded while the region is the active one. -/
def regionalExtension (resolve : Resolver) (slot : Slot) : Dissect Unit :=
  under "RegionalExtension" do
    let region := UInt8.ofNat (← read (.number 8))
    emit (Node.leaf "regionId" (.enumerated region.toNat (Region.label? region)))
    let payload ← read (.openType "regExtValue")
    let before ← setRegion (some region)
    let _ ← surely (resolve slot payload)
    let _ ← setRegion before

def regionalList (resolve : Resolver) (slot : Slot) : Dissect Unit := do
  let count ← read (.size 1 4)
  under "regional" (times count (regionalExtension resolve slot))

def undecoded (name remark : String) : Dissect Unit := do
  let data ← read .rest
  under name (emit ((Node.raw data).addNote ⟨.note, remark⟩))

end Dissect

end V2x
