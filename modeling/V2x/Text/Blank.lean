/-!
# Blanks and lines

Which characters count as blank, and the parts of a text between blanks or line feeds.
-/

namespace V2x.Text

/-- Whether the character has the Unicode property of white space. -/
def isBlank (c : Char) : Bool :=
  let n := c.toNat
  (9 ≤ n ∧ n ≤ 13) ∨ n = 0x20 ∨ n = 0x85 ∨ n = 0xA0 ∨ n = 0x1680 ∨ (0x2000 ≤ n ∧ n ≤ 0x200A) ∨
    n = 0x2028 ∨ n = 0x2029 ∨ n = 0x202F ∨ n = 0x205F ∨ n = 0x3000

def trim (text : String) : String :=
  let front := text.toList.dropWhile isBlank
  String.ofList (front.reverse.dropWhile isBlank).reverse

/-- The parts of a text before, between and after the characters `c`. -/
def splitAll (c : Char) : List Char → List (List Char)
  | [] => [[]]
  | d :: rest =>
    if d = c then [] :: splitAll c rest
    else
      match splitAll c rest with
      | [] => [[d]]
      | part :: more => (d :: part) :: more

def lines (text : String) : List String :=
  (splitAll '\n' text.toList).map String.ofList

/-- The parts of a text before and after the first `c`. -/
def splitFirst? (c : Char) (text : String) : Option (String × String) :=
  match text.toList.dropWhile (· ≠ c) with
  | [] => none
  | _ :: after => some (String.ofList (text.toList.takeWhile (· ≠ c)), String.ofList after)

end V2x.Text
