import V2x.Dissector.Basic
import V2x.Schema.Decode
import V2x.Vocabulary.Message

/-!
# Running parsers

A parser may hand octets to other parsers, found in the tables. What a parser does is therefore given
relative to `invoke`, which runs the others; `Dissector.run` supplies it, one level of nesting less.
Whatever goes wrong in a parser that was handed octets is shown where it happened and goes no
further.
-/

namespace V2x

abbrev Invoke := Parser → Octets → Run Nat

namespace Dissector

section

variable (d : Dissector) (invoke : Invoke)

/-- Hands `span` to the parser of a grammar, under a node named by its description. After a fault
the whole span follows as octets with the fault as their note, and counts as accounted for. -/
def delegate (grammar : Grammar) (span : Octets) : Surely Nat := fun s =>
  match invoke grammar.parser span (s.descend grammar.description) with
  | .ok n inner => (n, s.ascend inner)
  | .error fault inner => (span.length, s.ascend (inner.emit ((Node.raw span).addFault fault)))

/-- Decodes the payload of an extension for the region that is active. All of it is accounted for,
whatever its parser makes of it. -/
def resolve : Resolver := fun slot payload s =>
  let region := s.context.region.getD .unspecified
  if region = .unspecified ∧ d.config.noRegion = .skip then
    let remark : Note := ⟨.note, s!"{slot.name} value without a region is not decoded"⟩
    (payload.length, if payload.isEmpty then s else s.emit ((Node.raw payload).addNote remark))
  else
    match d.extensions.get? ⟨region, slot⟩ with
    | some grammar => (payload.length, (delegate invoke grammar payload s).2)
    | none => (payload.length, s.emit (Node.raw payload))

/-- Hands a message body to the grammar that is in effect for its identifier. -/
def dispatchMessage (messageId : UInt8) (body : Octets) : Surely Nat := fun s =>
  match d.effective? messageId with
  | some grammar =>
    delegate invoke grammar body { s with context := s.context.beginMessage grammar.name }
  | none => (body.length, s.emit (Node.raw body))

def headerNode (h : Header) : Node :=
  { name := "ItsPduHeader"
    children :=
      [ Node.leaf "protocolVersion" (.unsigned h.version.toNat),
        Node.leaf "messageID"
          (.enumerated h.messageId.toNat (MessageFamily.label? h.messageId)),
        Node.leaf "stationID" (.unsigned h.stationId.toNat) ] }

def parseMessage (data : Octets) : Run Nat :=
  match Header.decode data with
  | .error fault => throw fault
  | .ok (header, body) => do
    Run.emit (headerNode header)
    modify fun s => { s with context := { s.context with header := some header } }
    let n ← Run.surely (dispatchMessage d invoke header.messageId body)
    return Header.size + n

def parseSchema (schema : Schema) (data : Octets) : Run Nat :=
  Dissect.parse (Schema.decode (resolve d invoke) schema) data

/-! ## Steps -/

/-- The octets a step is about: its own, or whatever the reader has left. -/
def dataFor : Option Octets → Dissect Octets
  | some data => pure data
  | none => Dissect.read .rest

def runStep : Step → Dissect Answer
  | .read step => return .reading (← Dissect.read step.run)
  | .setHeader header => do
    Dissect.modifyContext fun c => { c with header := some header }
    return .done
  | .beginMessage grammar => do
    Dissect.modifyContext (Context.beginMessage grammar)
    return .done
  | .setCause code => do
    Dissect.modifyContext fun c => { c with cause := some code }
    return .done
  | .setRegion region => return .region (← Dissect.setRegion region)
  | .vocabulary => return .vocabulary (← Dissect.context).vocabulary
  | .showContext => do
    Dissect.emit (Node.leaf "context" (.text (← Dissect.context).render))
    return .done
  | .decode field => do
    field.decode (resolve d invoke)
    return .done
  | .enumerated name labels extensible =>
    return .value (← Dissect.enumerated name labels extensible)
  | .resolve slot payload =>
    return .accounted (← Dissect.surely (resolve d invoke slot payload))
  | .dispatch messageId body => do
    let body ← dataFor body
    return .accounted (← Dissect.surely (dispatchMessage d invoke messageId body))
  | .parseMessage data => do
    let data ← dataFor data
    return .accounted (← Dissect.run (parseMessage d invoke data))
  | .parse schema data => do
    let data ← dataFor data
    return .accounted (← Dissect.run (parseSchema d invoke schema data))

def runSteps : List Step → Dissect Unit
  | [] => pure ()
  | step :: more => do
    let _ ← runStep d invoke step
    runSteps more

/-! ## Parsers -/

/-- Runs a parser, leaving to `invoke` those that it runs in turn. -/
def runWith : Parser → Octets → Run Nat
  | .message, data => parseMessage d invoke data
  | .schema schema, data => parseSchema d invoke schema data
  | .undecoded, data => do
    Run.emit (Node.raw data)
    return data.length
  | .marker name, data => do
    Run.emit (Node.leaf name (.unsigned data.length))
    return data.length
  | .failing fault, _ => throw fault
  | .script steps, data => Dissect.parse (runSteps d invoke steps) data

end

/-- Runs a parser in which others nest at most `depth` deep. A parser that would go deeper is not
run. -/
def run (d : Dissector) : (depth : Nat) → Invoke
  | 0, _, _ => throw (.unsupported "nested parser")
  | depth + 1, parser, data => Run.recorded parser data (runWith d (run d depth) parser data)

/-- How deep parsers may nest beyond the number of octets. All but scripts hand on fewer octets than
they were given, so only scripts with octets of their own can come near it. -/
def scriptDepth : Nat := 100000

/-- Runs a parser with room for all the nesting that its octets admit. -/
def invoke (d : Dissector) : Invoke := fun parser data =>
  run d (data.length + scriptDepth + 1) parser data

end Dissector

end V2x
