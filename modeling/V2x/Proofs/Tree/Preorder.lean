import V2x.Tree.Node

/-!
# The fields of a tree in the order in which they are shown

Every field comes before the fields below it, and these before the fields that follow.
-/

namespace V2x.Node

mutual

def preorder : Node → List Node
  | ⟨name, value, notes, children⟩ => ⟨name, value, notes, children⟩ :: preorderIn children

def preorderIn : List Node → List Node
  | [] => []
  | child :: more => preorder child ++ preorderIn more

end

theorem preorderIn_append (a b : List Node) : preorderIn (a ++ b) = preorderIn a ++ preorderIn b := by
  induction a with
  | nil => simp [preorderIn]
  | cons child a ih => simp [preorderIn, ih]

theorem preorderIn_singleton (n : Node) : preorderIn [n] = n :: preorderIn n.children := by
  obtain ⟨name, value, notes, children⟩ := n
  simp [preorderIn, preorder]

theorem mem_preorderIn_of_leaves {nodes : List Node} (h : ∀ n ∈ nodes, n.children = []) {n : Node}
    (hn : n ∈ preorderIn nodes) : n.children = [] := by
  induction nodes with
  | nil => cases hn
  | cons child more ih =>
    rw [← List.singleton_append, preorderIn_append, preorderIn_singleton,
      h child List.mem_cons_self] at hn
    rcases List.mem_cons.mp hn with rfl | hmore
    · exact h _ List.mem_cons_self
    · exact ih (fun n hn => h n (List.mem_cons_of_mem _ hn)) hmore

/-- Name and value of a field that does not only group others. -/
def entry? (n : Node) : Option (String × Value) :=
  if n.value = .none then none else some (n.name, n.value)

/-- Names and values of the fields in which there is something to read. -/
def entries (nodes : List Node) : List (String × Value) :=
  (preorderIn nodes).filterMap entry?

theorem entries_append (a b : List Node) : entries (a ++ b) = entries a ++ entries b := by
  rw [entries, preorderIn_append, List.filterMap_append]
  rfl

theorem entries_group (name : String) (children : List Node) :
    entries [{ name, children }] = entries children := by
  simp [entries, preorderIn, preorder, entry?]

theorem entries_field (name : String) {value : Value} (h : value ≠ .none) (notes : List Note) :
    entries [{ name, value, notes }] = [(name, value)] := by
  simp [entries, preorderIn, preorder, entry?, h]

/-! ## Alarms -/

/-- The notes of the field itself that are more than remarks. -/
def ownAlarms (n : Node) : List (Node × Note) :=
  (n.notes.filter fun note => note.severity ≠ .note).map fun note => (n, note)

/-- Warnings and errors, each with the field that it is about. -/
def alarms (n : Node) : List (Node × Note) :=
  (preorder n).flatMap ownAlarms

def alarmsIn (nodes : List Node) : List (Node × Note) :=
  (preorderIn nodes).flatMap ownAlarms

theorem alarms_eq (n : Node) : n.alarms = n.ownAlarms ++ alarmsIn n.children := by
  obtain ⟨name, value, notes, children⟩ := n
  rw [alarms, preorder, List.flatMap_cons]
  rfl

theorem alarmsIn_append (a b : List Node) : alarmsIn (a ++ b) = alarmsIn a ++ alarmsIn b := by
  rw [alarmsIn, preorderIn_append, List.flatMap_append]
  rfl

theorem alarmsIn_singleton (n : Node) : alarmsIn [n] = n.alarms := by
  rw [alarmsIn, preorderIn, preorderIn, List.append_nil]
  rfl

@[simp] theorem alarmsIn_leaf (name : String) (value : Value) : alarmsIn [leaf name value] = [] := by
  simp [leaf, alarmsIn, preorderIn, preorder, ownAlarms]

@[simp] theorem alarmsIn_remark (data : Octets) (remark : String) :
    alarmsIn [(raw data).addNote ⟨.note, remark⟩] = [] := by
  simp [raw, leaf, addNote, alarmsIn, preorderIn, preorder, ownAlarms]

@[simp] theorem alarmsIn_fault (data : Octets) (fault : Fault) :
    alarmsIn [(raw data).addFault fault] = [((raw data).addFault fault, fault.note)] := by
  have hsevere : fault.note.severity ≠ .note := by
    cases fault <;> nofun
  simp [raw, leaf, addFault, addNote, alarmsIn, preorderIn, preorder, ownAlarms, hsevere]

theorem alarmsIn_group (name : String) (children : List Node) :
    alarmsIn [{ name, children }] = alarmsIn children := by
  rw [alarmsIn_singleton, alarms_eq]
  rfl

end V2x.Node
