import V2x.Proofs.Tree.Place
import V2x.Tree.Query

/-!
# Answers of a tree

Looking for a name and asking for the gravest severity are questions about the list of all fields in the order in
which they are shown. What is added to a tree, at whatever place, is added to that list, so that answers only grow
(`queries_preorder`).
-/

namespace V2x

namespace Severity

/-- The answer is the gravest of all severities, or there are none. -/
def Gravest (all : List Severity) : Option Severity → Prop
  | none => all = []
  | some s => s ∈ all ∧ ∀ t ∈ all, t.rank ≤ s.rank

theorem max_eq (a b : Severity) : a.max b = b ∧ a.rank ≤ b.rank ∨ a.max b = a ∧ b.rank ≤ a.rank := by
  unfold max
  by_cases h : a.rank ≤ b.rank
  · exact .inl ⟨if_pos h, h⟩
  · exact .inr ⟨if_neg h, Nat.le_of_not_le h⟩

theorem gravest_singleton (s : Severity) : Gravest [s] (some s) :=
  ⟨List.mem_singleton_self s, fun _ ht => Nat.le_of_eq (congrArg rank (List.mem_singleton.mp ht))⟩

theorem Gravest.append {a b : List Severity} {x y : Option Severity} (hx : Gravest a x)
    (hy : Gravest b y) : Gravest (a ++ b) (maxOption x y) := by
  cases x with
  | none =>
    obtain rfl : a = [] := hx
    exact hy
  | some s =>
    cases y with
    | none =>
      obtain rfl : b = [] := hy
      rwa [List.append_nil]
    | some t =>
      obtain ⟨hs, hall⟩ := hx
      obtain ⟨ht, hall'⟩ := hy
      rw [maxOption, Gravest, List.forall_mem_append, List.mem_append]
      rcases max_eq s t with ⟨hmax, hle⟩ | ⟨hmax, hle⟩
      · rw [hmax]
        exact ⟨.inr ht, fun u hu => Nat.le_trans (hall u hu) hle, hall'⟩
      · rw [hmax]
        exact ⟨.inl hs, hall, fun u hu => Nat.le_trans (hall' u hu) hle⟩

theorem Gravest.perm {a b : List Severity} {x : Option Severity} (h : Gravest a x) (hab : a.Perm b) :
    Gravest b x := by
  cases x with
  | none =>
    obtain rfl : a = [] := h
    exact List.nil_perm.mp hab
  | some s => exact ⟨hab.mem_iff.mp h.1, fun t ht => h.2 t (hab.mem_iff.mpr ht)⟩

theorem Gravest.foldl {all : List Severity} {x : Option Severity} (h : Gravest all x)
    (more : List Severity) :
    Gravest (all ++ more) (more.foldl (fun worst s => maxOption worst (some s)) x) := by
  induction more generalizing all x with
  | nil => rwa [List.append_nil]
  | cons s more ih =>
    rw [List.append_cons]
    exact ih (h.append (gravest_singleton s))

theorem Gravest.mono {a b : List Severity} {x y : Option Severity} (hx : Gravest a x) (hy : Gravest b y)
    (hab : a ⊆ b) : ∀ s ∈ x, ∃ t ∈ y, s.rank ≤ t.rank := by
  rintro s rfl
  have hs := hab hx.1
  cases y with
  | none =>
    obtain rfl : b = [] := hy
    cases hs
  | some t => exact ⟨t, rfl, hy.2 s hs⟩

end Severity

namespace Node

/-! ## Looking for a name -/

mutual

theorem findAll_eq (name : String) : ∀ n : Node,
    n.findAll name = n.preorder.filter (·.name = name)
  | ⟨own, value, notes, children⟩ => by
    rw [findAll, preorder, List.filter_cons, findAllIn_eq name children]
    simp only [decide_eq_true_eq]

theorem findAllIn_eq (name : String) : ∀ nodes : List Node,
    findAllIn name nodes = (preorderIn nodes).filter (·.name = name)
  | [] => rfl
  | child :: more => by
    rw [findAllIn, preorderIn, List.filter_append, findAll_eq name child, findAllIn_eq name more]

end

mutual

theorem find?_eq (name : String) : ∀ n : Node, n.find? name = (n.findAll name).head?
  | ⟨own, value, notes, children⟩ => by
    rw [find?, findAll]
    split
    · rfl
    · exact findIn?_eq name children

theorem findIn?_eq (name : String) : ∀ nodes : List Node,
    findIn? name nodes = (findAllIn name nodes).head?
  | [] => rfl
  | child :: more => by
    rw [findIn?, findAllIn, List.head?_append, find?_eq name child, findIn?_eq name more]
    cases (findAll name child).head? <;> rfl

end

/-! ## Severities -/

def severities (n : Node) : List Severity :=
  n.preorder.flatMap fun m => m.notes.map Note.severity

mutual

theorem gravest_worst? : ∀ n : Node, Severity.Gravest n.severities n.worst?
  | ⟨name, value, notes, children⟩ => by
    have hall := (gravest_worstIn? children).foldl (notes.map Note.severity)
    rw [worst?]
    exact hall.perm List.perm_append_comm

theorem gravest_worstIn? : ∀ nodes : List Node,
    Severity.Gravest ((preorderIn nodes).flatMap fun m => m.notes.map Note.severity) (worstIn? nodes)
  | [] => rfl
  | child :: more => by
    rw [preorderIn, List.flatMap_append, worstIn?]
    exact (gravest_worst? child).append (gravest_worstIn? more)

end

/-! ## Additions -/

inductive Addition
  | child (n : Node)
  | note (note : Note)

def add : Addition → Node → Node
  | .child c, n => n.push c
  | .note note, n => n.addNote note

/-- What is taken of a field depends on nothing below it, and notes added to it take nothing away. -/
structure Gathers {α : Type} (g : Node → List α) : Prop where
  children : ∀ n children, g { n with children } = g n
  note : ∀ n note, (g n).Sublist (g (n.addNote note))

theorem gathers_name : Gathers fun n => [n.name] :=
  ⟨fun _ _ => rfl, fun _ _ => .refl _⟩

theorem gathers_severities : Gathers fun n => n.notes.map Note.severity where
  children _ _ := rfl
  note n note := by
    rw [addNote, List.map_append]
    exact List.sublist_append_left _ _

variable {α : Type} {g : Node → List α}

theorem flatMap_preorder (n : Node) :
    n.preorder.flatMap g = g n ++ (preorderIn n.children).flatMap g := by
  obtain ⟨name, value, notes, children⟩ := n
  rw [preorder, List.flatMap_cons]

theorem Gathers.add (h : Gathers g) (a : Addition) (n : Node) :
    (n.preorder.flatMap g).Sublist ((n.add a).preorder.flatMap g) := by
  rw [flatMap_preorder, flatMap_preorder]
  cases a with
  | child c =>
    have hown : g (n.push c) = g n := h.children n _
    rw [Node.add, hown, push, preorderIn_append, List.flatMap_append]
    exact (List.sublist_append_left _ _).append_left _
  | note note => exact (h.note n note).append_right _

theorem flatMap_preorderIn_modify {f : Node → Node}
    (hf : ∀ n : Node, (n.preorder.flatMap g).Sublist ((f n).preorder.flatMap g)) (i : Nat)
    (nodes : List Node) :
    ((preorderIn nodes).flatMap g).Sublist ((preorderIn (nodes.modify i f)).flatMap g) := by
  induction nodes generalizing i with
  | nil => simp only [List.modify_nil, List.Sublist.refl]
  | cons child more ih =>
    cases i with
    | zero =>
      rw [List.modify_zero_cons, preorderIn, preorderIn, List.flatMap_append, List.flatMap_append]
      exact (hf child).append_right _
    | succ i =>
      rw [List.modify_succ_cons, preorderIn, preorderIn, List.flatMap_append, List.flatMap_append]
      exact (ih i).append_left _

/-- What is taken of all fields is still there after an addition, wherever in the tree it is made. -/
theorem Gathers.modifyAt (h : Gathers g) (a : Addition) (place : List Nat) (n : Node) :
    (n.preorder.flatMap g).Sublist ((n.modifyAt (Node.add a) place).preorder.flatMap g) := by
  induction place generalizing n with
  | nil => exact h.add a n
  | cons i place ih =>
    rw [Node.modifyAt, flatMap_preorder, flatMap_preorder, h.children]
    exact (flatMap_preorderIn_modify ih i n.children).append_left _

theorem length_findAll (name : String) (n : Node) :
    (n.findAll name).length = (n.preorder.flatMap fun m => [m.name]).count name := by
  rw [findAll_eq, ← List.countP_eq_length_filter, ← List.map_eq_flatMap, List.count, List.countP_map]
  rfl

/-- The questions about a tree are answered from its fields in the lexicographic order of their places. Looking for
a name gives the fields of that name, or the first of them. The gravest severity is that of all notes of all fields.
A child or a note that is added at the place of any field makes no answer shorter and none milder. -/
theorem queries_preorder (n : Node) :
    (n.places.Pairwise (· < ·) ∧ (∀ place, place ∈ n.places ↔ (n.at? place).isSome) ∧
      n.places.map (n.at? ·) = n.preorder.map some) ∧
    (∀ name, n.findAll name = n.preorder.filter (·.name = name) ∧
      n.find? name = (n.findAll name).head?) ∧
    Severity.Gravest n.severities n.worst? ∧
    ∀ (place : List Nat) (a : Addition),
      let grown := n.modifyAt (add a) place
      grown.at? place = (n.at? place).map (add a) ∧
        (∀ name, (n.findAll name).length ≤ (grown.findAll name).length) ∧
        ∀ s ∈ n.worst?, ∃ t ∈ grown.worst?, s.rank ≤ t.rank := by
  refine ⟨⟨pairwise_places n, mem_places n, map_at?_places n⟩,
    fun name => ⟨findAll_eq name n, find?_eq name n⟩, gravest_worst? n, fun place a => ⟨?_, ?_, ?_⟩⟩
  · exact at?_modifyAt (add a) n place
  · intro name
    rw [length_findAll, length_findAll]
    exact (gathers_name.modifyAt a place n).count_le name
  · exact (gravest_worst? n).mono (gravest_worst? _) (gathers_severities.modifyAt a place n).subset

/-- Two fields of one name at different depths, and a note above them. -/
def nested : Node :=
  { name := "a"
    notes := [⟨.note, "fine"⟩]
    children := [raw [1], { name := "b", children := [raw [2]] }] }

theorem queries_preorder_nested :
    nested.places = [[], [0], [1], [1, 0]] ∧
      (nested.findAll "data").map value = [.octets [1], .octets [2]] ∧
      nested.find? "data" = (nested.findAll "data").head? ∧
      Severity.Gravest nested.severities nested.worst? ∧ .note ∈ nested.worst? ∧
      let grown := nested.modifyAt (add (.note ⟨.error, "broken"⟩)) [1, 0]
      (nested.findAll "data").length ≤ (grown.findAll "data").length ∧
        ∃ t ∈ grown.worst?, Severity.note.rank ≤ t.rank := by
  obtain ⟨-, hnames, hgravest, hgrown⟩ := queries_preorder nested
  obtain ⟨-, hlength, hworst⟩ := hgrown [1, 0] (.note ⟨.error, "broken"⟩)
  have hnote : .note ∈ nested.worst? := by decide
  exact ⟨by decide, by decide +kernel, (hnames "data").2, hgravest, hnote, hlength "data",
    hworst .note hnote⟩

end Node

end V2x
