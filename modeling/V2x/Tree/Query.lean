import V2x.Tree.Node

/-!
# Questions about a tree

Fields are looked up by name from the top down and from the first child to the last.
-/

namespace V2x

namespace Node

mutual

/-- The first field of that name, the tree itself included. -/
def find? (name : String) : Node → Option Node
  | ⟨own, value, notes, children⟩ =>
    if own = name then some ⟨own, value, notes, children⟩ else findIn? name children

def findIn? (name : String) : List Node → Option Node
  | [] => none
  | child :: more =>
    match find? name child with
    | some found => some found
    | none => findIn? name more

end

mutual

/-- Every field of that name, the tree itself included. -/
def findAll (name : String) : Node → List Node
  | ⟨own, value, notes, children⟩ =>
    if own = name then ⟨own, value, notes, children⟩ :: findAllIn name children
    else findAllIn name children

def findAllIn (name : String) : List Node → List Node
  | [] => []
  | child :: more => findAll name child ++ findAllIn name more

end

end Node

/-- The graver of two severities, either of which may be missing. -/
def Severity.maxOption : Option Severity → Option Severity → Option Severity
  | some a, some b => some (a.max b)
  | some a, none => some a
  | none, b => b

namespace Node

mutual

/-- The gravest severity of any note in the tree. -/
def worst? : Node → Option Severity
  | ⟨_, _, notes, children⟩ =>
    (notes.map Note.severity).foldl (fun worst s => Severity.maxOption worst (some s))
      (worstIn? children)

def worstIn? : List Node → Option Severity
  | [] => none
  | child :: more => Severity.maxOption (worst? child) (worstIn? more)

end

end Node

end V2x
