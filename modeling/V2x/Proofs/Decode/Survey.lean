import V2x.Proofs.Decode.Simulation
import V2x.Proofs.Per.Local

/-!
# Where the payloads of extensions lie

A survey reads a schema like a decoder but shows nothing. For every bit it notes whether the bit belongs
to the content of an extension (`Schema.payloadBits`).
-/

namespace V2x

structure Survey.Outcome (α : Type) where
  result : Except Fault α
  reader : Per.Reader
  /-- For the bits met so far, whether they are content of an extension. -/
  mask : List Bool

def Survey (α : Type) : Type := Per.Reader → Survey.Outcome α

namespace Survey

variable {α β : Type}

instance : Monad Survey where
  pure a := fun r => ⟨.ok a, r, []⟩
  bind m f := fun r =>
    match m r with
    | ⟨.ok a, r', mask⟩ => { f a r' with mask := mask ++ (f a r').mask }
    | ⟨.error fault, r', mask⟩ => ⟨.error fault, r', mask⟩

theorem pure_bind (a : α) (f : α → Survey β) : (pure a >>= f) = f a := rfl

theorem bind_of_ok {m : Survey α} {r r' : Per.Reader} {a : α} {mask : List Bool}
    (h : m r = ⟨.ok a, r', mask⟩) (f : α → Survey β) :
    (m >>= f) r = { f a r' with mask := mask ++ (f a r').mask } := by
  simp only [Bind.bind, h]

theorem bind_of_error {m : Survey α} {r r' : Per.Reader} {fault : Fault} {mask : List Bool}
    (h : m r = ⟨.error fault, r', mask⟩) (f : α → Survey β) :
    (m >>= f) r = ⟨.error fault, r', mask⟩ := by
  simp only [Bind.bind, h]

/-- A read outside the content of extensions. -/
def read (r : Per.Read α) : Survey α := fun reader =>
  ⟨(r reader).outcome, (r reader).state,
    List.replicate ((r reader).state.position - reader.position) false⟩

/-- The content of an extension. Where it is cut short, all that is there of it belongs to it. -/
def content (count : Nat) : Survey Octets := fun reader =>
  ⟨(Per.Read.octets count reader).outcome, (Per.Read.octets count reader).state,
    List.replicate (min (8 * count) reader.remaining) true⟩

theorem content_of_lt {count : Nat} {r : Per.Reader} (h : r.remaining < 8 * count) :
    content count r = ⟨.error (.incomplete (8 * count) r.remaining), r,
      List.replicate (min (8 * count) r.remaining) true⟩ := by
  unfold content
  rw [Per.Read.octets_of_lt h]
  rfl

theorem content_of_ok {count : Nat} {r r' : Per.Reader} {data : Octets}
    (h : Per.Read.octets count r = .ok data r') :
    content count r =
      ⟨.ok data, r', List.replicate (min (8 * count) r.remaining) true⟩ := by
  unfold content
  rw [h]
  rfl

def interpreter : Interpreter Survey where
  read := read
  emit _ := pure ()
  under _ body := body
  causeCode := do
    let _ ← read (.number 8)
  subCauseCode := do
    let _ ← read (.number 8)
  regionalExtension _ := do
    let _ ← read (.number 8)
    let count ← read (.length "regExtValue")
    let _ ← content count

end Survey

/-- For each bit that a message has up to where its decoding ends, whether it is content of an
extension. -/
def Schema.payloadBits (schema : Schema) (data : Octets) : List Bool :=
  (Survey.interpreter.schema schema (Per.Reader.ofOctets data)).mask

end V2x
