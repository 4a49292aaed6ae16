import V2x.Bits
import V2x.Text.Utf8

/-!
# Octets as hexadecimal text

Octets are written as two lower-case digits each. Text is read more liberally: blanks and colons
separate digits anywhere, and either case will do.
-/

namespace V2x.Text.Hex

def digits : List Char :=
  ['0', '1', '2', '3', '4', '5', '6', '7', '8', '9', 'a', 'b', 'c', 'd', 'e', 'f']

def encodeOctet (octet : UInt8) : List Char :=
  [digits.getD (octet.toNat / 16) '0', digits.getD (octet.toNat % 16) '0']

def encode (octets : Octets) : String :=
  String.ofList (octets.flatMap encodeOctet)

/-- The value of a digit, given as the octet of an ASCII character. -/
def digit? (octet : UInt8) : Option Nat :=
  let n := octet.toNat
  if 48 ≤ n ∧ n ≤ 57 then some (n - 48)
  else if 97 ≤ n ∧ n ≤ 102 then some (n - 87)
  else if 65 ≤ n ∧ n ≤ 70 then some (n - 55)
  else none

inductive Error
  | oddLength (text : String)
  | invalidPair (pair : String)
  | brokenCharacter (fault : Utf8.Fault)
  deriving DecidableEq, Repr

def Error.message : Error → String
  | .oddLength text => s!"odd number of hex digits in '{text}'"
  | .invalidPair pair => s!"invalid hex byte '{pair}'"
  | .brokenCharacter fault => fault.message

/-- A tab, line feed, form feed, carriage return, space or colon. -/
def isSeparator (octet : UInt8) : Bool :=
  octet ∈ [9, 10, 12, 13, 32, 58]

/-- The octet that two digits, or a plus sign and one digit, stand for. -/
def pair? (a b : UInt8) : Option UInt8 :=
  match if a = 43 then some 0 else digit? a, digit? b with
  | some high, some low => some (UInt8.ofNat (16 * high + low))
  | _, _ => none

def decodePair (a b : UInt8) : Except Error UInt8 :=
  match Utf8.decode [a, b] with
  | .error fault => .error (.brokenCharacter fault)
  | .ok text =>
    match pair? a b with
    | some octet => .ok octet
    | none => .error (.invalidPair text)

/-- Takes the octets of a text two at a time; one left over is no pair. -/
def decodePairs : Octets → Except Error Octets
  | a :: b :: rest => do
    let octet ← decodePair a b
    return octet :: (← decodePairs rest)
  | _ => .ok []

def decode (text : String) : Except Error Octets :=
  let digits := text.toUTF8.toList.filter fun octet => !isSeparator octet
  if digits.length % 2 = 1 then .error (.oddLength text) else decodePairs digits

end V2x.Text.Hex
