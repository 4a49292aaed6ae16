import V2x.Parser
import V2x.Vocabulary.Cause

/-!
# What a parser works on

A parser sees the context of the message, adds fields to one node of the tree and may run other
parsers. It keeps whatever it has done when it fails.
-/

namespace V2x

/-- What earlier fields of a message say about later ones. -/
structure Context where
  header : Option Header := none
  /-- The name of the grammar that the message body went to. -/
  grammar : Option String := none
  region : Option Region := none
  cause : Option UInt8 := none
  deriving DecidableEq, Repr

namespace Context

/-- A new message body: region and cause of anything before it are forgotten. -/
def beginMessage (grammar : String) (c : Context) : Context :=
  { c with grammar := some grammar, region := none, cause := none }

def vocabulary (c : Context) : Vocabulary :=
  match c.cause with
  | some code => Cause.vocabularyFor code
  | none => .generic

def render (c : Context) : String :=
  let shown {α : Type} [ToString α] (x : Option α) := (x.map toString).getD "-"
  s!"region={shown c.region} cause={shown c.cause} " ++
    s!"grammar={shown c.grammar} message={shown (c.header.map Header.messageId)}"

end Context

/-- A parser that has run: on which octets, with which result, and the parsers it ran itself. -/
structure Call where
  parser : Parser
  span : Octets
  result : Except Fault Nat
  inner : List Call := []

/-- What a parser may change: the context, the node it fills and the record of calls. -/
structure Scene where
  context : Context := {}
  tree : Node
  calls : List Call := []

namespace Scene

def emit (n : Node) (s : Scene) : Scene :=
  { s with tree := s.tree.push n }

/-- A new, empty node takes the place of the one being filled. -/
def descend (name : String) (s : Scene) : Scene :=
  { s with tree := Node.leaf name .none }

/-- The node just filled becomes a child of the one in `outer`. -/
def ascend (outer inner : Scene) : Scene :=
  { inner with tree := outer.tree.push inner.tree }

end Scene

/-- Running a parser: a number of octets or a fault, and what has become of the scene. -/
abbrev Run := EStateM Fault Scene

/-- Something that runs in a scene and cannot fail. -/
abbrev Surely (α : Type) := Scene → α × Scene

namespace Run

def emit (n : Node) : Run Unit :=
  modify (Scene.emit n)

def surely {α : Type} (act : Surely α) : Run α := fun s =>
  .ok (act s).1 (act s).2

/-- Records a run of a parser, with the calls made meanwhile inside it. -/
def recorded (parser : Parser) (span : Octets) (run : Run Nat) : Run Nat := fun s =>
  match run { s with calls := [] } with
  | .ok n after => .ok n { after with calls := s.calls ++ [⟨parser, span, .ok n, after.calls⟩] }
  | .error fault after =>
    .error fault { after with calls := s.calls ++ [⟨parser, span, .error fault, after.calls⟩] }

end Run

end V2x
