import V2x.Tree.Node
import V2x.Vocabulary.Region

/-!
# Schemas

The grammar of a message as data: each field says how it is encoded and under which name it is
shown. One decoder reads them all.
-/

namespace V2x

mutual

inductive Field
  /-- A number within bounds, shown with a sign if the bounds admit one. -/
  | integer (name : String) (lower upper : Int)
  /-- A number that may leave its bounds. -/
  | extensibleInteger (name : String) (lower upper : Int)
  /-- One of the values named by `labels`, or an addition to them. -/
  | enumerated (name : String) (labels : List String) (extensible : Bool)
  | octets (name : String) (count : Nat)
  /-- A cause code, which is remembered for the sub-cause code that follows. -/
  | causeCode
  /-- A sub-cause code, named by the vocabulary of the cause remembered last. -/
  | subCauseCode
  /-- Components one after another, and additions if the sequence is extensible. -/
  | sequence (name : String) (extensible : Bool) (components : Components)
  | sequenceOf (name : String) (lower upper : Nat) (element : Field)
  /-- One of several fields. An index past them is an addition in an extensible choice and an
  error in any other. -/
  | choice (name type : String) (extensible : Bool) (alternatives : Alternatives)
  /-- A region and content that only its grammar for the slot describes. -/
  | regionalExtension (slot : Slot)
  /-- One to four regional extensions, shown under a name once their number is known. -/
  | regionalList (slot : Slot)
  | unsupported (type : String)
  /-- The rest of the message, shown as octets with a remark. -/
  | undecoded (name remark : String)

inductive Components
  | done
  | required (field : Field) (more : Components)
  | optional (field : Field) (more : Components)
  /-- A component that may be left out and is then shown as `absent`. -/
  | defaulted (field : Field) (absent : Node) (more : Components)

inductive Alternatives
  | done
  | or (field : Field) (more : Alternatives)

end

/-- The number of components that a presence bitmap covers. -/
def Components.optionalCount : Components → Nat
  | .done => 0
  | .required _ more => more.optionalCount
  | .optional _ more => more.optionalCount + 1
  | .defaulted _ _ more => more.optionalCount + 1

def Alternatives.count : Alternatives → Nat
  | .done => 0
  | .or _ more => more.count + 1

/-- What a whole message or extension consists of: components without a name around them. -/
abbrev Schema := Components

def Schema.ofField (field : Field) : Schema :=
  .required field .done

end V2x
