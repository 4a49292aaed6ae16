import V2x.Proofs.Message.Item

/-!
# Values and the items they become

The types admit just the values that a message can carry, so that whatever has been built can be
written. A sequence is written as its presence bits and its components, a list as its length and its
elements.
-/

namespace V2x

open Per (WriteStep)

abbrev Within (lower upper : Int) := { n : Int // lower ≤ n ∧ n ≤ upper }

abbrev Counted (lower upper : Nat) (α : Type) :=
  { elements : List α // lower ≤ elements.length ∧ elements.length ≤ upper }

/-- A number within bounds, or any number that one to eight octets hold in two's complement. -/
inductive Extensible (lower upper : Int)
  | inside (n : Within lower upper)
  | outside (count : Nat) (n : Int) (hcount : 0 < count ∧ count ≤ 8)
      (hn : -2 ^ (8 * count - 1) ≤ n ∧ n < 2 ^ (8 * count - 1))

namespace Extensible

variable {lower upper : Int}

def value : Extensible lower upper → Int
  | .inside n => n
  | .outside _ n _ _ => n

def steps : Extensible lower upper → List WriteStep
  | .inside n => [.flag false, .constrained n lower upper]
  | .outside count n _ _ =>
    [.flag true, .length count, .bits (n % 2 ^ (8 * count)).toNat (8 * count)]

end Extensible

/-- A number that is expected to be small, in six bits or on counted octets. -/
inductive Small
  | short (n : Fin 64)
  | counted (count n : Nat) (hcount : count ≤ 8) (hn : n < 2 ^ (8 * count))

namespace Small

def value : Small → Nat
  | .short n => n
  | .counted _ n _ _ => n

def steps : Small → List WriteStep
  | .short n => [.flag false, .bits n 6]
  | .counted count n _ _ => [.flag true, .length count, .bits n (8 * count)]

end Small

/-- One of the roots of an extensible enumeration, or an addition, which counts on from them. -/
inductive Enumerated (roots : Nat)
  | root (i : Fin roots)
  | addition (n : Small) (h : roots + n.value < 2 ^ 64)

namespace Enumerated

variable {roots : Nat}

def value : Enumerated roots → Nat
  | .root i => i
  | .addition n _ => roots + n.value

def steps : Enumerated roots → List WriteStep
  | .root i => [.index i roots true]
  | .addition n _ => .flag true :: n.steps

end Enumerated

/-- Extension additions, of which some may be missing. -/
abbrev Additions := Counted 1 64 (Option Per.Short)

theorem Value.unsigned_ne_none (n : Nat) : Value.unsigned n ≠ .none := nofun

namespace Item

/-- A number is shown with a sign if its bounds admit one. -/
def number (name : String) {lower upper : Int} (n : Within lower upper) : Item :=
  .field name (if lower < 0 then .signed n else .unsigned n.1.toNat) (by split <;> nofun) []
    [.constrained n lower upper]

def extensible (name : String) {lower upper : Int} (n : Extensible lower upper) : Item :=
  .field name (.signed n.value) nofun [] n.steps

def named (name : String) (labels : List String) (i : Fin labels.length) : Item :=
  .field name (.enumerated i (some labels[i])) nofun [] [.index i labels.length false]

/-- Only roots have a label. -/
def enumerated (name : String) (labels : List String) (e : Enumerated labels.length) : Item :=
  .field name (.enumerated e.value labels[e.value]?) nofun [] e.steps

def octets (name : String) {count : Nat} (data : { data : Octets // data.length = count }) : Item :=
  .field name (.octets data) nofun [] [.octets data]

/-- What is shown in place of a component that has not been written. -/
def absent (name : String) (n : Nat) (remark : String) : Item :=
  .field name (.unsigned n) (Value.unsigned_ne_none n) [⟨.note, remark⟩] []

def addition (data : Per.Short) : Item :=
  .field "data" (.octets data) nofun [] [.openType data]

def additions : Option Additions → List Item
  | none => []
  | some a =>
    .control (.flag false :: .bits (a.1.length - 1) 6 :: a.1.map fun data => .flag data.isSome) ::
      (a.1.filterMap id).map addition

inductive Part
  | required (item : Item)
  | optional (item? : Option Item)
  | defaulted (item? : Option Item) (absent : Item)

namespace Part

/-- The presence bit of a component that may be left out. -/
def present : Part → List Bool
  | .required _ => []
  | .optional item? => [item?.isSome]
  | .defaulted item? _ => [item?.isSome]

def items : Part → List Item
  | .required item => [item]
  | .optional item? => item?.toList
  | .defaulted item? absent => [item?.getD absent]

end Part

def presence (parts : List Part) : Item :=
  .control ((parts.flatMap Part.present).map .flag)

def message (parts : List Part) : List Item :=
  presence parts :: parts.flatMap Part.items

def sequence (name : String) (parts : List Part) : Item :=
  .group name (message parts)

def extensibleSequence (name : String) (a : Option Additions) (parts : List Part) : Item :=
  .group name (.control [.flag a.isSome] :: (message parts ++ additions a))

def list (name : String) {lower upper : Nat} {α : Type} (item : α → Item)
    (elements : Counted lower upper α) : Item :=
  .group name (.control [.constrained elements.1.length lower upper] :: elements.1.map item)

/-- An alternative, written behind its index. -/
def choice (name : String) (index : List WriteStep) (alternative : Item) : Item :=
  .group name [.control index, alternative]

end Item

/-! ## Frames that several messages share -/

structure Extension where
  region : Region
  payload : Per.Short

def Extension.item (slot : Slot) (e : Extension) : Item :=
  .extension slot e.region e.payload

abbrev Extensions := Counted 1 4 Extension

def Extensions.item (slot : Slot) (es : Extensions) : Item :=
  .list "regional" (Extension.item slot) es

structure CauseCode where
  cause : UInt8
  subCause : UInt8
  additions : Option Additions := none

namespace CauseCode

/-- The sub-cause has the name that the cause gives to it. -/
def subCauseItem (c : CauseCode) : Item :=
  let vocabulary := Cause.vocabularyFor c.cause
  .field vocabulary.field (.enumerated c.subCause.toNat (vocabulary.label? c.subCause)) nofun []
    [.bits c.subCause.toNat 8]

def item (name : String) (c : CauseCode) : Item :=
  .extensibleSequence name c.additions [.required (.causeCode c.cause), .required c.subCauseItem]

end CauseCode

namespace Altitude

def confidences : List String :=
  ["alt-000-01", "alt-000-02", "alt-000-05", "alt-000-10", "alt-000-20", "alt-000-50",
   "alt-001-00", "alt-002-00", "alt-005-00", "alt-010-00", "alt-020-00", "alt-050-00",
   "alt-100-00", "alt-200-00", "outOfRange", "unavailable"]

end Altitude

structure Altitude where
  value : Within (-100000) 800001
  confidence : Fin Altitude.confidences.length

def Altitude.item (name : String) (a : Altitude) : Item :=
  .sequence name
    [.required (.number "value" a.value),
     .required (.named "confidence" confidences a.confidence)]

end V2x
