import V2x.Table

/-!
# The dissector

Its tables say which parser a version, a message identifier or a regional extension goes to.
Overrides of the operator take precedence over the table of messages.
-/

namespace V2x

/-- What happens to an extension of no region. -/
inductive NoRegion
  /-- It is shown as octets. -/
  | skip
  /-- It is looked up like any other. -/
  | attempt
  deriving DecidableEq, Repr

structure Config where
  noRegion : NoRegion := .skip
  versions : List UInt8 := [1, 2]
  maxSize : Nat := 65535
  deriving DecidableEq, Repr

structure Dissector where
  config : Config
  versions : Table UInt8 := { name := "its.version" }
  messages : Table UInt8 := { name := "its.msg_id" }
  extensions : Table ExtensionKey := { name := "dsrc.regionid" }
  overrides : OrderedMap UInt8 Grammar := {}

namespace Dissector

def empty (config : Config) : Dissector :=
  { config }

/-! ## Overrides -/

/-- A line of the list of overrides: the name bound by the table and the name bound instead. -/
structure Override where
  messageId : UInt8
  default : Option String
  current : String
  deriving DecidableEq, Repr

/-- Binds a message identifier to a parser, whatever the table says. -/
def override (d : Dissector) (messageId : UInt8) (grammar : Grammar) : Dissector :=
  { d with overrides := d.overrides.insert messageId grammar }

/-- Binds a message identifier to a grammar of the message table, given by name. -/
def overrideByName (d : Dissector) (messageId : UInt8) (name : String) :
    Except Refusal Dissector :=
  match d.messages.findByName? name with
  | some grammar => .ok (d.override messageId grammar)
  | none => .error (.unknownGrammar name)

/-- Drops an override, and says whether there was one. -/
def clearOverride (d : Dissector) (messageId : UInt8) : Bool × Dissector :=
  (d.overrides.contains messageId, { d with overrides := d.overrides.erase messageId })

def clearOverrides (d : Dissector) : Dissector :=
  { d with overrides := {} }

def effective? (d : Dissector) (messageId : UInt8) : Option Grammar :=
  match d.overrides.get? messageId with
  | some grammar => some grammar
  | none => d.messages.get? messageId

def overrideList (d : Dissector) : List Override :=
  d.overrides.entries.map fun (messageId, grammar) =>
    ⟨messageId, (d.messages.get? messageId).map Grammar.name, grammar.name⟩

end Dissector

/-- How an operator is shown a message identifier. -/
def promptFor (messageId : UInt8) : String :=
  s!"MsgId (→{messageId})"

end V2x
