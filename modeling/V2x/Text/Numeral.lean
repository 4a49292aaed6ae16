/-!
# Decimal numerals

An unsigned number with a limit, as decimal digits after an optional plus sign.
-/

namespace V2x.Text.Numeral

/-- Why a text is no number. Of two reasons the one further to the left is given. -/
inductive Error
  | empty
  | invalidDigit
  | overflow
  deriving DecidableEq, Repr

def Error.message : Error → String
  | .empty => "cannot parse integer from empty string"
  | .invalidDigit => "invalid digit found in string"
  | .overflow => "number too large to fit in target type"

/-- Reads digits on from `n`. -/
def digits (limit : Nat) (n : Nat) : List Char → Except Error Nat
  | [] => .ok n
  | c :: rest =>
    if c.isDigit then
      let next := 10 * n + (c.toNat - '0'.toNat)
      if limit < next then .error .overflow else digits limit next rest
    else
      .error .invalidDigit

def parse (limit : Nat) (text : String) : Except Error Nat :=
  match text.toList with
  | [] => .error .empty
  | ['+'] => .error .invalidDigit
  | '+' :: rest => digits limit 0 rest
  | all => digits limit 0 all

end V2x.Text.Numeral
