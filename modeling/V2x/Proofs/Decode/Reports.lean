import V2x.Proofs.Decode.Frame
import V2x.Proofs.Decode.Growth
import V2x.Proofs.Tree.Preorder

/-!
# Faults and the alarms they raise

A fault of a parser that has run is reported on the octets that the parser was given. Where every fault is
reported once, in the order in which the parsers have ended, the alarms among the nodes that have been added
are the reports of the calls that have been made (`Scene.Reports`). Nodes that raise no alarm and need no
report keep this up (`Scene.Reports.growth`).
-/

namespace V2x

namespace Call

mutual

/-- The faults in which a call and those inside it have ended, each with the octets it concerns. The calls
inside have ended first. -/
def failures : Call → List (Octets × Fault)
  | ⟨_, span, .error fault, inner⟩ => failuresIn inner ++ [(span, fault)]
  | ⟨_, _, .ok _, inner⟩ => failuresIn inner

def failuresIn : List Call → List (Octets × Fault)
  | [] => []
  | call :: more => call.failures ++ failuresIn more

end

theorem failuresIn_append (a b : List Call) :
    failuresIn (a ++ b) = failuresIn a ++ failuresIn b := by
  induction a with
  | nil => simp [failuresIn]
  | cons call a ih => simp [failuresIn, ih]

/-- The alarm for a fault. It is raised on a field with the octets that the parser was given. -/
def report : Octets × Fault → Node × Note
  | (span, fault) => ((Node.raw span).addFault fault, fault.note)

def reportsIn (calls : List Call) : List (Node × Note) :=
  (failuresIn calls).map report

theorem reportsIn_append (a b : List Call) : reportsIn (a ++ b) = reportsIn a ++ reportsIn b := by
  rw [reportsIn, failuresIn_append, List.map_append]
  rfl

end Call

open Call (reportsIn reportsIn_append)
open Node (alarmsIn alarmsIn_append)

/-- From the first scene to the second, nodes and calls have been added such that the alarms of the nodes are
the reports of the calls. -/
def Scene.Reports (s after : Scene) : Prop :=
  ∃ nodes calls, after.tree = s.tree.pushAll nodes ∧ after.calls = s.calls ++ calls ∧
    alarmsIn nodes = reportsIn calls

namespace Scene.Reports

variable {s t u : Scene}

theorem of_same (htree : t.tree = s.tree) (hcalls : t.calls = s.calls) : s.Reports t :=
  ⟨[], [], htree.trans (Node.pushAll_nil _).symm, hcalls.trans (List.append_nil _).symm, rfl⟩

theorem trans (h : s.Reports t) (h' : t.Reports u) : s.Reports u := by
  obtain ⟨nodes, calls, htree, hcalls, halarms⟩ := h
  obtain ⟨nodes', calls', htree', hcalls', halarms'⟩ := h'
  refine ⟨nodes ++ nodes', calls ++ calls', ?_, ?_, ?_⟩
  · rw [htree', htree, Node.pushAll_pushAll]
  · rw [hcalls', hcalls, List.append_assoc]
  · rw [alarmsIn_append, reportsIn_append, halarms, halarms']

theorem emit {n : Node} (hn : alarmsIn [n] = []) (s : Scene) : s.Reports (s.emit n) :=
  ⟨[n], [], Node.push_eq_pushAll _ _, (List.append_nil _).symm, hn⟩

theorem ascend {name : String} (h : (s.descend name).Reports t) : s.Reports (s.ascend t) := by
  obtain ⟨nodes, calls, htree, hcalls, halarms⟩ := h
  refine ⟨[(Node.leaf name .none).pushAll nodes], calls, congrArg s.tree.push htree, hcalls, ?_⟩
  exact (Node.alarmsIn_group name nodes).trans halarms

end Scene.Reports

def Scene.Reports.growth : Growth where
  Rel := Scene.Reports
  quiet n := alarmsIn [n] = []
  of_same := of_same
  trans := trans
  emit s hn := emit hn s
  ascend := ascend
  leaf := Node.alarmsIn_leaf
  remark := Node.alarmsIn_remark

/-- Whether nothing that is shown in place of other components raises an alarm. -/
def Operation.quiet : Operation → Bool
  | .shown n => (alarmsIn [n]).isEmpty
  | _ => true

def Components.quiet (c : Components) : Bool :=
  c.operations.all Operation.quiet

theorem Components.quiet_shown {c : Components} (h : c.quiet = true) {n : Node}
    (hn : .shown n ∈ c.operations) : alarmsIn [n] = [] :=
  List.isEmpty_iff.mp (List.all_eq_true.mp h _ hn)

end V2x
