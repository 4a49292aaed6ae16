import V2x.Text.Printable

/-!
# Quoted text

A text between double quotes, in which quotes, backslashes and everything that does not show on its
own are escaped.
-/

namespace V2x.Text.Quoted

/-- The number of a character in hexadecimal, between braces. -/
def byNumber (c : Char) : List Char :=
  "\\u\x7b".toList ++ Nat.toDigits 16 c.toNat ++ "\x7d".toList

def escape (c : Char) : List Char :=
  if c = '\x00' then ['\\', '0']
  else if c = '\t' then ['\\', 't']
  else if c = '\n' then ['\\', 'n']
  else if c = '\r' then ['\\', 'r']
  else if c = '\\' ∨ c = '"' then ['\\', c]
  else if isPrintable c then [c]
  else byNumber c

def encode (text : String) : String :=
  String.ofList (('"' :: text.toList.flatMap escape) ++ ['"'])

end V2x.Text.Quoted
