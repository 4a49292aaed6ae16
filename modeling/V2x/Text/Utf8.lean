import V2x.Bits

/-!
# Octets as UTF-8 text

Octets are read one by one, knowing within a character which values may follow. The first character
that is not well formed is reported by its position and by whether more octets could complete it.
-/

namespace V2x.Text.Utf8

/-- The first character that is not well formed, by the number of octets before it. -/
inductive Fault
  /-- The octets end within the character. -/
  | incomplete (position : Nat)
  /-- No character begins with these octets. -/
  | invalid (octets position : Nat)
  deriving DecidableEq, Repr

def Fault.message : Fault → String
  | .incomplete position => s!"incomplete utf-8 byte sequence from index {position}"
  | .invalid octets position => s!"invalid utf-8 sequence of {octets} bytes from index {position}"

/-- A character that has been begun: where, how many of its octets have been read, the least and
the greatest value of the next one, and how many come after that. -/
structure Begun where
  start : Nat
  seen : Nat
  low : Nat
  high : Nat
  more : Nat

/-- What may follow the first octet of a character of several octets. The bounds leave out overlong
forms, surrogates and numbers past the last character. -/
def begin? (start first : Nat) : Option Begun :=
  if 0xC2 ≤ first ∧ first ≤ 0xDF then some ⟨start, 1, 0x80, 0xBF, 0⟩
  else if first = 0xE0 then some ⟨start, 1, 0xA0, 0xBF, 1⟩
  else if first = 0xED then some ⟨start, 1, 0x80, 0x9F, 1⟩
  else if 0xE1 ≤ first ∧ first ≤ 0xEF then some ⟨start, 1, 0x80, 0xBF, 1⟩
  else if first = 0xF0 then some ⟨start, 1, 0x90, 0xBF, 2⟩
  else if 0xF1 ≤ first ∧ first ≤ 0xF3 then some ⟨start, 1, 0x80, 0xBF, 2⟩
  else if first = 0xF4 then some ⟨start, 1, 0x80, 0x8F, 2⟩
  else none

/-- The state after one more octet of the character: none once it is complete. -/
def Begun.next : Begun → Option Begun
  | ⟨_, _, _, _, 0⟩ => none
  | ⟨start, seen, _, _, more + 1⟩ => some ⟨start, seen + 1, 0x80, 0xBF, more⟩

/-- The first fault in the octets from `position` on. -/
def fault? (position : Nat) : Option Begun → Octets → Option Fault
  | none, [] => none
  | some begun, [] => some (.incomplete begun.start)
  | none, octet :: rest =>
    if octet.toNat < 0x80 then fault? (position + 1) none rest
    else
      match begin? position octet.toNat with
      | none => some (.invalid 1 position)
      | some begun => fault? (position + 1) (some begun) rest
  | some begun, octet :: rest =>
    if begun.low ≤ octet.toNat ∧ octet.toNat ≤ begun.high then
      fault? (position + 1) begun.next rest
    else
      some (.invalid begun.seen begun.start)

def decode (octets : Octets) : Except Fault String :=
  match fault? 0 none octets with
  | some fault => .error fault
  | none => .ok ((String.fromUTF8? (ByteArray.mk octets.toArray)).getD "")

end V2x.Text.Utf8
