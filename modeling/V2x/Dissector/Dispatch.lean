import V2x.Dissector.Run
import V2x.Transport

/-!
# Dissecting a message

A message is dissected by the parser of its protocol version. This never fails: what no parser claims
is shown as octets, and faults become notes.
-/

namespace V2x

structure Dissection where
  tree : Node
  consumed : Nat
  header : Option Header
  /-- The name of the grammar that the message body went to. -/
  grammar : Option String
  /-- The parsers that ran, in the order in which they ended. -/
  calls : List Call

/-- How an operator is shown the message identifier of what was dissected. -/
def Dissection.prompt? (d : Dissection) : Option String :=
  d.header.map fun h => promptFor h.messageId

namespace Dissector

def protocolName : String := "Intelligent Transport Systems"

/-- The node to fill for a message of `size` octets, with a warning if that is too many. -/
def root (config : Config) (size : Nat) : Node :=
  let node := Node.leaf protocolName .none
  if config.maxSize < size then
    node.addNote ⟨.warn, s!"PDU of {size} bytes truncated to {config.maxSize}"⟩
  else
    node

/-- Hands a message to the parser of its first octet, the version. -/
def dispatchVersion (d : Dissector) (invoke : Invoke) (version : UInt8) (data : Octets) :
    Surely Nat := fun s =>
  match d.versions.get? version with
  | some grammar =>
    match invoke grammar.parser data s with
    | .ok n after => (n, after)
    | .error fault after => (data.length, after.emit ((Node.raw data).addFault fault))
  | none =>
    let remark : Note := ⟨.note, s!"Unsupported protocol version {version}"⟩
    (data.length,
      (s.emit (Node.leaf "protocolVersion" (.unsigned version.toNat))).emit
        ((Node.raw data).addNote remark))

/-- Dissects a message, of which at most the configured number of octets is looked at. -/
def dispatch (d : Dissector) (pdu : Octets) : Dissection :=
  let node := root d.config pdu.length
  match pdu.take d.config.maxSize with
  | [] =>
    { tree := node.addFault (.incomplete 8 0), consumed := 0, header := none, grammar := none,
      calls := [] }
  | version :: rest =>
    let (consumed, s) := d.dispatchVersion d.invoke version (version :: rest) { tree := node }
    { tree := s.tree, consumed, header := s.context.header, grammar := s.context.grammar,
      calls := s.calls }

/-- What a datagram held: its transport header, the service it went to and the message. -/
structure Datagram where
  header : TransportHeader
  service : Service
  dissection : Dissection

/-- Dissects the message in a datagram to a service whose messages can be dissected. -/
def dispatchDatagram (d : Dissector) (datagram : Octets) : Option Datagram :=
  match TransportHeader.decodeBroadcast datagram with
  | .error _ => none
  | .ok (header, pdu) =>
    match header.service? with
    | some service =>
      if service.dissected then some ⟨header, service, d.dispatch pdu⟩ else none
    | none => none

/-! ## Single steps -/

/-- What a step reported and showed, and where it left the reader and the context. -/
structure StepOutcome where
  result : Except Fault Answer
  shown : List Node
  position : Nat
  context : Context

/-- Runs steps over one reader and one context, each into a node of its own. A step that fails does
not stop the next one. -/
def trySteps (d : Dissector) : List Step → Per.Reader → Context → List StepOutcome
  | [], _, _ => []
  | step :: more, reader, context =>
    match runStep d d.invoke step ⟨reader, { context, tree := Node.leaf "step" .none }⟩ with
    | .ok answer s =>
      ⟨.ok answer, s.scene.tree.children, s.reader.position, s.scene.context⟩ ::
        trySteps d more s.reader s.scene.context
    | .error fault s =>
      ⟨.error fault, s.scene.tree.children, s.reader.position, s.scene.context⟩ ::
        trySteps d more s.reader s.scene.context

end Dissector

end V2x
