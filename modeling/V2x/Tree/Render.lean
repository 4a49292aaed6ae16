import V2x.Tree.Node

/-!
# The text of a tree

One line for each field and one for each note, each level indented by four blanks more. The notes of
a field stand one level below it, before its children.
-/

namespace V2x

def indentation (depth : Nat) : String :=
  String.ofList (List.replicate (4 * depth) ' ')

def Note.line (depth : Nat) (note : Note) : String :=
  s!"{indentation depth}[Expert Info ({note.severity.name}): {note.message}]"

namespace Node

def line (depth : Nat) (name : String) : Value → String
  | .none => s!"{indentation depth}{name}"
  | value => s!"{indentation depth}{name}: {value.render}"

mutual

def lines (depth : Nat) : Node → List String
  | ⟨name, value, notes, children⟩ =>
    line depth name value :: notes.map (Note.line (depth + 1)) ++ linesIn (depth + 1) children

def linesIn (depth : Nat) : List Node → List String
  | [] => []
  | child :: more => lines depth child ++ linesIn depth more

end

/-- The lines of the tree, each ended by a line feed. -/
def render (n : Node) : String :=
  String.join ((n.lines 0).map fun line => line ++ "\n")

end Node

end V2x
