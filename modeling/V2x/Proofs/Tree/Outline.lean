import V2x.Tree.Node

/-!
# Outlines

The outline of a tree lists its fields in the order in which they are shown, with the depth of each but
without the fields below it. Fields that are added at the end of a tree, at any depth, extend its outline.
-/

namespace V2x.Node

structure Line where
  depth : Nat
  name : String
  value : Value
  notes : List Note

mutual

def outline (depth : Nat) : Node → List Line
  | ⟨name, value, notes, children⟩ => ⟨depth, name, value, notes⟩ :: outlineIn (depth + 1) children

def outlineIn (depth : Nat) : List Node → List Line
  | [] => []
  | child :: more => outline depth child ++ outlineIn depth more

end

theorem outlineIn_append (depth : Nat) (a b : List Node) :
    outlineIn depth (a ++ b) = outlineIn depth a ++ outlineIn depth b := by
  induction a with
  | nil => simp [outlineIn]
  | cons child a ih => simp [outlineIn, ih]

/-- Whatever the depth at which the nodes stand, the second outline begins with the first. -/
def Begins (nodes whole : List Node) : Prop :=
  ∀ depth, outlineIn depth nodes <+: outlineIn depth whole

theorem Begins.refl (nodes : List Node) : Begins nodes nodes :=
  fun _ => List.prefix_rfl

theorem Begins.append {nodes whole : List Node} (h : Begins nodes whole) (more : List Node) :
    Begins nodes (whole ++ more) := by
  intro depth
  rw [outlineIn_append]
  exact (h depth).trans (List.prefix_append _ _)

theorem Begins.prepend {nodes whole : List Node} (h : Begins nodes whole) (before : List Node) :
    Begins (before ++ nodes) (before ++ whole) := by
  intro depth
  rw [outlineIn_append, outlineIn_append]
  exact List.prefix_append_right_inj _ |>.mpr (h depth)

theorem Begins.under {nodes whole : List Node} (h : Begins nodes whole) (name : String) :
    Begins [{ name, children := nodes }] [{ name, children := whole }] := by
  intro depth
  simp only [outlineIn, outline, List.append_nil]
  exact List.cons_prefix_cons.mpr ⟨rfl, h (depth + 1)⟩

end V2x.Node
