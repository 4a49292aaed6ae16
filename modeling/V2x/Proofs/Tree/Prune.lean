import V2x.Tree.Node

/-!
# Trees without the content of extensions

Pruning takes from every regional extension what follows its region. Nodes that agree after pruning
may differ in what extensions hold, and in nothing else.
-/

namespace V2x.Node

/-- The nodes up to the first region identifier, which is kept. -/
def throughRegion : List Node → List Node
  | [] => []
  | n :: more => if n.name = "regionId" then [n] else n :: throughRegion more

mutual

def prune : Node → Node
  | ⟨name, value, notes, children⟩ =>
    ⟨name, value, notes,
      if name = "RegionalExtension" then throughRegion (pruneAll children) else pruneAll children⟩

def pruneAll : List Node → List Node
  | [] => []
  | n :: more => prune n :: pruneAll more

end

theorem pruneAll_append (a b : List Node) : pruneAll (a ++ b) = pruneAll a ++ pruneAll b := by
  induction a with
  | nil => simp [pruneAll]
  | cons n a ih => simp [pruneAll, ih]

end V2x.Node
