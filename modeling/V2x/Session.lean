import V2x.Dissector.Dispatch

/-!
# Sessions

An operator works with one dissector: dissects messages, changes overrides and looks at them.
-/

namespace V2x

inductive Request
  | dispatch (pdu : Octets)
  | datagram (datagram : Octets)
  /-- Overrides a message identifier with a grammar of the table. -/
  | overrideByName (messageId : UInt8) (name : String)
  | override (messageId : UInt8) (grammar : Grammar)
  | clearOverride (messageId : UInt8)
  | clearOverrides
  /-- Asks which parser a message identifier goes to. -/
  | effective (messageId : UInt8)
  /-- Asks for the override of a message identifier. -/
  | overriding (messageId : UInt8)
  | overrideCount
  | overrides
  | snapshot
  | recall (index : Nat)
  | findVersion (name : String)
  | findMessage (name : String)
  | version (version : UInt8)
  | message (messageId : UInt8)
  | extension (key : ExtensionKey)
  | keys

inductive Reply
  | dissection (dissection : Dissection)
  | datagram (datagram : Option Dissector.Datagram)
  | done
  | refused (error : Refusal)
  | existed (b : Bool)
  | grammar (grammar : Option Grammar)
  | count (n : Nat)
  | overrides (list : List Dissector.Override)
  | snapshot (overrides : Option (OrderedMap UInt8 Grammar))
  | keys (versions messages : List UInt8) (extensions : List ExtensionKey)

structure Session where
  dissector : Dissector
  /-- The overrides that were kept, the oldest first. -/
  snapshots : List (OrderedMap UInt8 Grammar) := []

namespace Session

def answer (s : Session) : Request → Reply × Session
  | .dispatch pdu => (.dissection (s.dissector.dispatch pdu), s)
  | .datagram datagram => (.datagram (s.dissector.dispatchDatagram datagram), s)
  | .overrideByName messageId name =>
    match s.dissector.overrideByName messageId name with
    | .ok dissector => (.done, { s with dissector })
    | .error error => (.refused error, s)
  | .override messageId grammar =>
    (.done, { s with dissector := s.dissector.override messageId grammar })
  | .clearOverride messageId =>
    let (existed, dissector) := s.dissector.clearOverride messageId
    (.existed existed, { s with dissector })
  | .clearOverrides => (.done, { s with dissector := s.dissector.clearOverrides })
  | .effective messageId => (.grammar (s.dissector.effective? messageId), s)
  | .overriding messageId => (.grammar (s.dissector.overrides.get? messageId), s)
  | .overrideCount => (.count s.dissector.overrides.size, s)
  | .overrides => (.overrides s.dissector.overrideList, s)
  | .snapshot =>
    (.snapshot (some s.dissector.overrides),
      { s with snapshots := s.snapshots ++ [s.dissector.overrides] })
  | .recall index => (.snapshot s.snapshots[index]?, s)
  | .findVersion name => (.grammar (s.dissector.versions.findByName? name), s)
  | .findMessage name => (.grammar (s.dissector.messages.findByName? name), s)
  | .version version => (.grammar (s.dissector.versions.get? version), s)
  | .message messageId => (.grammar (s.dissector.messages.get? messageId), s)
  | .extension key => (.grammar (s.dissector.extensions.get? key), s)
  | .keys =>
    (.keys s.dissector.versions.grammars.keys s.dissector.messages.grammars.keys
      s.dissector.extensions.grammars.keys, s)

/-- The replies to requests made one after another. -/
def answerAll (s : Session) : List Request → List Reply × Session
  | [] => ([], s)
  | request :: more =>
    let (reply, s) := s.answer request
    let (replies, s) := s.answerAll more
    (reply :: replies, s)

end Session

end V2x
