import V2x.OrderedMap
import V2x.Parser

/-!
# Tables of grammars

A table binds keys to grammars. A key is bound once; later attempts are refused.
-/

namespace V2x

inductive Refusal
  | duplicate (table key : String)
  | unknownGrammar (name : String)
  deriving DecidableEq, Repr

def Refusal.message : Refusal → String
  | .duplicate table key => s!"Duplicate registration in '{table}' for key {key}"
  | .unknownGrammar name => s!"No grammar named '{name}' is registered"

/-- Keys of a table, which an error names by their text. -/
class TableKey (κ : Type) extends Ranked κ where
  text : κ → String

instance : TableKey UInt8 where
  text key := toString key

instance : TableKey ExtensionKey where
  rank := ExtensionKey.packed
  rank_injective _ _ := ExtensionKey.packed_injective
  text := ExtensionKey.render

/-- Names are compared without regard to the case of ASCII letters. -/
def sameName (a b : String) : Bool :=
  a.toList.map Char.toLower = b.toList.map Char.toLower

structure Table (κ : Type) [TableKey κ] where
  name : String
  grammars : OrderedMap κ Grammar := {}

namespace Table

variable {κ : Type} [TableKey κ]

def register (t : Table κ) (key : κ) (grammar : Grammar) : Except Refusal (Table κ) :=
  if t.grammars.contains key then .error (.duplicate t.name (TableKey.text key))
  else .ok { t with grammars := t.grammars.insert key grammar }

def get? (t : Table κ) (key : κ) : Option Grammar :=
  t.grammars.get? key

/-- The first grammar, by key, whose name is `name`. -/
def findByName? (t : Table κ) (name : String) : Option Grammar :=
  t.grammars.values.find? fun grammar => sameName grammar.name name

end Table

end V2x
