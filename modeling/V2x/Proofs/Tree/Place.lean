import V2x.Proofs.Tree.Outline
import V2x.Proofs.Tree.Preorder

/-!
# Places in a tree

The place of a field is the list of child positions that lead to it from the top, and its depth is the length of
its place. The order in which fields are shown is the lexicographic order of their places, in which a place comes
right before those that begin with it.
-/

namespace V2x.Node

mutual

def places : Node → List (List Nat)
  | ⟨_, _, _, children⟩ => [] :: placesFrom 0 children

/-- The places in a row of nodes of which the first stands at position `i`. -/
def placesFrom (i : Nat) : List Node → List (List Nat)
  | [] => []
  | child :: more => (places child).map (i :: ·) ++ placesFrom (i + 1) more

end

@[simp] theorem at?_nil (n : Node) : n.at? [] = some n := rfl

theorem at?_cons (n : Node) (i : Nat) (place : List Nat) :
    n.at? (i :: place) = n.children[i]?.bind (at? place) := rfl

theorem at?_length_cons {n child : Node} {before more : List Node}
    (h : n.children = before ++ child :: more) (place : List Nat) :
    n.at? (before.length :: place) = child.at? place := by
  rw [at?_cons, h, List.getElem?_append_right (Nat.le_refl _), Nat.sub_self]
  rfl

/-- A change at a place is one of the field that stands there. -/
theorem at?_modifyAt (f : Node → Node) (n : Node) (place : List Nat) :
    (n.modifyAt f place).at? place = (n.at? place).map f := by
  induction place generalizing n with
  | nil => rfl
  | cons i place ih =>
    rw [modifyAt, at?_cons, at?_cons, List.getElem?_modify_eq]
    cases n.children[i]? with
    | none => rfl
    | some child => exact ih child

mutual

/-- The places are just those at which a field stands. -/
theorem mem_places : ∀ (n : Node) (place : List Nat), place ∈ n.places ↔ (n.at? place).isSome
  | ⟨_, _, _, children⟩, [] => by simp [places]
  | ⟨_, _, _, children⟩, i :: place => by
    rw [places, at?_cons, List.mem_cons, mem_placesFrom 0 children]
    constructor
    · rintro (h | ⟨k, rest, h, hrest⟩)
      · cases h
      · obtain ⟨rfl, rfl⟩ := List.cons.inj h
        rwa [Nat.zero_add]
    · intro h
      exact .inr ⟨i, place, by rw [Nat.zero_add], h⟩

theorem mem_placesFrom : ∀ (i : Nat) (nodes : List Node) (place : List Nat),
    place ∈ placesFrom i nodes ↔
      ∃ k rest, place = (i + k) :: rest ∧ (nodes[k]?.bind (at? rest)).isSome
  | i, [], place => by simp [placesFrom]
  | i, child :: more, place => by
    rw [placesFrom, List.mem_append, List.mem_map, mem_placesFrom (i + 1) more]
    constructor
    · rintro (⟨rest, hrest, rfl⟩ | ⟨k, rest, rfl, hrest⟩)
      · exact ⟨0, rest, rfl, (mem_places child rest).mp hrest⟩
      · exact ⟨k + 1, rest, by rw [Nat.add_right_comm, Nat.add_assoc], hrest⟩
    · rintro ⟨k, rest, rfl, hrest⟩
      cases k with
      | zero => exact .inl ⟨rest, (mem_places child rest).mpr hrest, rfl⟩
      | succ k => exact .inr ⟨k, rest, by rw [Nat.add_right_comm, Nat.add_assoc], hrest⟩

end

mutual

theorem pairwise_places : ∀ n : Node, n.places.Pairwise (· < ·)
  | ⟨_, _, _, children⟩ => by
    rw [places, List.pairwise_cons]
    refine ⟨fun place hplace => ?_, pairwise_placesFrom 0 children⟩
    obtain ⟨k, rest, rfl, -⟩ := (mem_placesFrom 0 children place).mp hplace
    exact List.nil_lt_cons _ _

theorem pairwise_placesFrom : ∀ (i : Nat) (nodes : List Node),
    (placesFrom i nodes).Pairwise (· < ·)
  | _, [] => .nil
  | i, child :: more => by
    refine List.pairwise_append.mpr ⟨?_, pairwise_placesFrom (i + 1) more, ?_⟩
    · exact (pairwise_places child).map _ fun _ _ h => List.cons_lt_cons_iff.mpr (.inr ⟨rfl, h⟩)
    · -- the places in a child and in one that follows differ in their first position
      intro a ha b hb
      obtain ⟨rest, -, rfl⟩ := List.mem_map.mp ha
      obtain ⟨k, rest', rfl, -⟩ := (mem_placesFrom (i + 1) more b).mp hb
      exact List.cons_lt_cons_iff.mpr (.inl (by omega))

end

/-! ## Visiting a tree -/

/-- Something is taken of every field and its depth, and then of those below it. -/
structure Visits {α : Type} (f : Nat → Node → α) (visit : Nat → Node → List α)
    (visitIn : Nat → List Node → List α) : Prop where
  node : ∀ depth n, visit depth n = f depth n :: visitIn (depth + 1) n.children
  nil : ∀ depth, visitIn depth [] = []
  cons : ∀ depth child more,
    visitIn depth (child :: more) = visit depth child ++ visitIn depth more

section

variable {α : Type} {f : Nat → Node → α} {visit : Nat → Node → List α}
  {visitIn : Nat → List Node → List α}

mutual

/-- A visit goes through the fields in the order of their places, and their depths are the lengths of these. -/
theorem Visits.map_places (h : Visits f visit visitIn) : ∀ (depth : Nat) (n : Node),
    (n.places.map fun place => (n.at? place).map (f (depth + place.length))) =
      (visit depth n).map some
  | depth, ⟨_, _, _, children⟩ => by
    rw [places, h.node, List.map_cons, List.map_cons, at?_nil]
    exact congrArg _ (h.map_placesFrom depth [] children rfl)

theorem Visits.map_placesFrom (h : Visits f visit visitIn) (depth : Nat) {n : Node} :
    ∀ before nodes : List Node, n.children = before ++ nodes →
      ((placesFrom before.length nodes).map fun place =>
          (n.at? place).map (f (depth + place.length))) =
        (visitIn (depth + 1) nodes).map some
  | _, [], _ => by rw [h.nil]; rfl
  | before, child :: more, hn => by
    have hmore := h.map_placesFrom depth (before ++ [child]) more (by rw [hn, List.append_cons])
    rw [List.length_append, List.length_singleton] at hmore
    rw [placesFrom, h.cons, List.map_append, List.map_append, hmore, List.map_map,
      ← h.map_places (depth + 1) child]
    refine congrArg (· ++ _) (List.map_congr_left fun place _ => ?_)
    rw [Function.comp_apply, at?_length_cons hn, List.length_cons, Nat.add_right_comm, Nat.add_assoc]

end

end

theorem visits_preorder : Visits (fun _ n => n) (fun _ => preorder) (fun _ => preorderIn) where
  node | _, ⟨_, _, _, _⟩ => by rw [preorder]
  nil _ := rfl
  cons _ child more := by rw [preorderIn]

/-- What the outline has for a field at a depth. -/
def lineAt (depth : Nat) (n : Node) : Line :=
  ⟨depth, n.name, n.value, n.notes⟩

theorem visits_outline : Visits lineAt outline outlineIn where
  node | _, ⟨_, _, _, _⟩ => by rw [outline, lineAt]
  nil _ := rfl
  cons depth child more := by rw [outlineIn]

theorem map_at?_places (n : Node) : n.places.map (n.at? ·) = n.preorder.map some := by
  simpa only [Option.map_id'] using visits_preorder.map_places 0 n

end V2x.Node
