import V2x.Header
import V2x.Per.Step
import V2x.Schema.Basic
import V2x.Vocabulary.Cause

/-!
# Parsers

What can be bound to a protocol version, a message identifier or a regional extension. Parsers are
data; the dissector runs them.
-/

namespace V2x

/-- A single action over a reader, the context and the tree. Where no octets are given, the action
takes whatever the reader has left. -/
inductive Step
  | read (step : Per.ReadStep)
  | setHeader (header : Header)
  | beginMessage (grammar : String)
  | setCause (code : UInt8)
  | setRegion (region : Option Region)
  /-- Asks for the vocabulary of the next sub-cause code. -/
  | vocabulary
  | showContext
  | decode (field : Field)
  /-- Decodes an enumeration and reports its value. -/
  | enumerated (name : String) (labels : List String) (extensible : Bool)
  | resolve (slot : Slot) (payload : Octets)
  | dispatch (messageId : UInt8) (body : Option Octets)
  | parseMessage (data : Option Octets)
  | parse (schema : Schema) (data : Option Octets)

inductive Answer
  | done
  | reading (reading : Per.Reading)
  | value (n : Nat)
  | accounted (n : Nat)
  /-- The region that was active before. -/
  | region (before : Option Region)
  | vocabulary (vocabulary : Vocabulary)

inductive Parser
  /-- The common header and the message that it announces. -/
  | message
  | schema (schema : Schema)
  | undecoded
  /-- Shows only the number of octets, under a name. -/
  | marker (name : String)
  | failing (fault : Fault)
  /-- Steps over one reader, up to the first that fails. -/
  | script (steps : List Step)

/-- A parser with the name by which it is chosen and the description under which its fields are
shown. -/
structure Grammar where
  name : String
  description : String
  parser : Parser

end V2x
