import Mathlib.Data.List.TakeWhile
import V2x.Proofs.Tree.Lines

/-!
# What the text of a tree tells of its shape

The blanks before a line tell its depth, and what follows them whether it is that of a note. Read from the last
line to the first, each field takes the trees that follow it and stand deeper as those below it. This gives the
shape of the tree back (`render_tells_shape`).
-/

namespace V2x

/-- What holds of the first list and not where the second begins parts the two. -/
theorem takeWhile_dropWhile_append {α : Type} {p : α → Bool} {a b : List α} (ha : ∀ x ∈ a, p x = true)
    (hb : ∀ x ∈ b.head?, p x = false) :
    (a ++ b).takeWhile p = a ∧ (a ++ b).dropWhile p = b := by
  rw [List.takeWhile_append_of_pos ha, List.dropWhile_append_of_pos ha]
  cases b with
  | nil => exact ⟨List.append_nil a, rfl⟩
  | cons x b =>
    have hx : ¬ p x = true := by simpa using hb x rfl
    rw [List.takeWhile_cons_of_neg hx, List.dropWhile_cons_of_neg hx, List.append_nil]
    exact ⟨rfl, rfl⟩

def Text.Flush (text : String) : Prop :=
  text.toList.head? ≠ some ' '

instance : DecidablePred Text.Flush :=
  fun _ => inferInstanceAs (Decidable (_ ≠ _))

/-! ## Rows -/

structure Row where
  depth : Nat
  isNote : Bool

/-- What the lines of notes begin with behind their blanks. -/
def noteMark : List Char :=
  "[Expert Info".toList

namespace Row

def ofText (text : String) : Row :=
  { depth := (text.toList.takeWhile (· = ' ')).length / 4
    isNote := noteMark.isPrefixOf (text.toList.dropWhile (· = ' ')) }

/-- The rows of a text in which every line is ended by a line feed. -/
def ofLines (text : String) : List Row :=
  (Text.lines text).dropLast.map ofText

theorem ofText_indentation {depth : Nat} {rest : String} (h : Text.Flush rest) :
    ofText (indentation depth ++ rest) = ⟨depth, noteMark.isPrefixOf rest.toList⟩ := by
  have hblanks : ∀ c ∈ List.replicate (4 * depth) ' ', decide (c = ' ') = true := fun c hc =>
    decide_eq_true (List.eq_of_mem_replicate hc)
  have hrest : ∀ c ∈ rest.toList.head?, decide (c = ' ') = false := fun c hc =>
    decide_eq_false fun hblank => h (hblank ▸ hc)
  obtain ⟨htake, hdrop⟩ := takeWhile_dropWhile_append hblanks hrest
  rw [ofText, String.toList_append, indentation, String.toList_ofList, htake, hdrop,
    List.length_replicate, Nat.mul_div_cancel_left _ (by decide)]

end Row

namespace Node

def Line.rows (l : Line) : List Row :=
  ⟨l.depth, false⟩ :: l.notes.map fun _ => ⟨l.depth + 1, true⟩

/-- A name is followed by the end of the line or by a colon. -/
theorem toList_heading (name : String) (value : Value) :
    ∃ rest, (heading name value).toList = name.toList ++ rest ∧ ∀ c ∈ rest.head?, c = ':' := by
  have hshown : ∃ rest, (name ++ ": " ++ value.render).toList = name.toList ++ rest ∧
      ∀ c ∈ rest.head?, c = ':' := by
    refine ⟨':' :: ' ' :: value.render.toList, ?_, fun c hc => (Option.some.inj hc).symm⟩
    rw [String.append_assoc, String.toList_append, String.toList_append]
    rfl
  cases value with
  | none => exact ⟨[], (List.append_nil _).symm, nofun⟩
  | unsigned | signed | flag | octets | enumerated | text => exact hshown

theorem flush_heading {name : String} (h : Text.Flush name) (value : Value) :
    Text.Flush (heading name value) := by
  obtain ⟨rest, hrest, hcolon⟩ := toList_heading name value
  intro hblank
  rw [hrest, List.head?_append, Option.or_eq_some_iff] at hblank
  rcases hblank with hblank | ⟨-, hblank⟩
  · exact h hblank
  · exact absurd (hcolon ' ' hblank) (by decide)

/-- No colon stands in the mark of notes, so that only a name can make a field look like one. -/
theorem noteMark_isPrefixOf_heading {name : String} (h : ¬ noteMark <+: name.toList) (value : Value) :
    noteMark.isPrefixOf (heading name value).toList = false := by
  obtain ⟨rest, hrest, hcolon⟩ := toList_heading name value
  rw [← Bool.not_eq_true, List.isPrefixOf_iff_prefix, hrest]
  intro hmark
  rcases List.prefix_or_prefix_of_prefix hmark (List.prefix_append _ rest) with hname | ⟨more, hmore⟩
  · exact h hname
  · rw [← hmore, List.prefix_append_right_inj] at hmark
    cases more with
    | nil =>
      rw [List.append_nil] at hmore
      exact h (hmore ▸ List.prefix_rfl)
    | cons c more =>
      obtain ⟨tail, htail⟩ := hmark
      have hc : c = ':' := hcolon c (by rw [← htail]; rfl)
      have hmem : ':' ∈ noteMark := by rw [← hmore, hc]; simp
      exact absurd hmem (by decide)

theorem toList_caption (note : Note) : ∃ rest, note.caption.toList = noteMark ++ rest := by
  let shown := note.severity.name ++ "): " ++ note.message ++ "]"
  have hcaption : note.caption = "[Expert Info (" ++ shown := by
    have hshown : "[Expert Info (" ++ note.severity.name ++ "): " ++ note.message ++ "]" =
        "[Expert Info (" ++ (note.severity.name ++ "): " ++ note.message ++ "]") := by
      simp only [String.append_assoc]
    exact hshown
  have hopening : "[Expert Info (".toList = noteMark ++ " (".toList := by decide
  refine ⟨" (".toList ++ shown.toList, ?_⟩
  rw [hcaption, String.toList_append, hopening, List.append_assoc]

theorem ofText_caption (depth : Nat) (note : Note) :
    Row.ofText (indentation depth ++ note.caption) = ⟨depth, true⟩ := by
  obtain ⟨rest, hrest⟩ := toList_caption note
  have hflush : Text.Flush note.caption := by
    rw [Text.Flush, hrest]
    exact fun hblank => absurd (Option.some.inj hblank) (by decide)
  rw [Row.ofText_indentation hflush, List.isPrefixOf_iff_prefix.mpr ⟨rest, hrest.symm⟩]

/-- No name begins with a blank. -/
def Flush (n : Node) : Prop :=
  ∀ m ∈ n.preorder, Text.Flush m.name

/-- No name begins as notes do. -/
def Unmarked (n : Node) : Prop :=
  ∀ m ∈ n.preorder, ¬ noteMark <+: m.name.toList

instance : DecidablePred Flush :=
  fun n => inferInstanceAs (Decidable (∀ m ∈ n.preorder, _))

instance : DecidablePred Unmarked :=
  fun n => inferInstanceAs (Decidable (∀ m ∈ n.preorder, _))

theorem map_ofText_texts {l : Line} (h : Text.Flush l.name) :
    l.texts.map Row.ofText =
      ⟨l.depth, noteMark.isPrefixOf (heading l.name l.value).toList⟩ ::
        l.notes.map fun _ => ⟨l.depth + 1, true⟩ := by
  rw [Line.texts, List.map_cons, Row.ofText_indentation (flush_heading h l.value), List.map_map]
  exact congrArg _ (List.map_congr_left fun note _ => ofText_caption (l.depth + 1) note)

theorem Unbroken.ofLines_render {n : Node} (h : n.Unbroken) :
    Row.ofLines n.render = (n.outline 0).flatMap fun l => l.texts.map Row.ofText := by
  rw [Row.ofLines, h.lines_render, List.dropLast_concat, List.map_flatMap]

theorem Unbroken.map_depth_ofLines {n : Node} (h : n.Unbroken) (hflush : n.Flush) :
    (Row.ofLines n.render).map Row.depth = ((n.outline 0).flatMap Line.rows).map Row.depth := by
  rw [h.ofLines_render, List.map_flatMap, List.map_flatMap]
  refine List.flatMap_congr fun l hl => ?_
  obtain ⟨m, hm, heq⟩ := mem_outline hl
  rw [map_ofText_texts (by rw [heq]; exact hflush m hm)]
  rfl

theorem Unbroken.ofLines_eq {n : Node} (h : n.Unbroken) (hflush : n.Flush) (hunmarked : n.Unmarked) :
    Row.ofLines n.render = (n.outline 0).flatMap Line.rows := by
  rw [h.ofLines_render]
  refine List.flatMap_congr fun l hl => ?_
  obtain ⟨m, hm, heq⟩ := mem_outline hl
  have hunmarked' : ¬ noteMark <+: l.name.toList := by rw [heq]; exact hunmarked m hm
  rw [map_ofText_texts (by rw [heq]; exact hflush m hm), noteMark_isPrefixOf_heading hunmarked']
  rfl

end Node

/-! ## Shapes -/

/-- How many notes a field has, and what is below it. -/
structure Shape where
  notes : Nat
  children : List Shape

namespace Node

mutual

def shape : Node → Shape
  | ⟨_, _, notes, children⟩ => ⟨notes.length, shapes children⟩

def shapes : List Node → List Shape
  | [] => []
  | child :: more => shape child :: shapes more

end

end Node

namespace Shape

/-- What rows make up: notes that belong to the field before them, and trees, each behind the depth of its top. -/
structure Stand where
  notes : Nat
  trees : List (Nat × Shape)

def plant : List Row → Stand
  | [] => ⟨0, []⟩
  | row :: more =>
    let stand := plant more
    if row.isNote then { stand with notes := stand.notes + 1 }
    else
      ⟨0, (row.depth, ⟨stand.notes, (stand.trees.takeWhile (row.depth < ·.1)).map Prod.snd⟩) ::
        stand.trees.dropWhile (row.depth < ·.1)⟩

/-- The shape of the tree that the text shows. -/
def ofText? (text : String) : Option Shape :=
  match plant (Row.ofLines text) with
  | ⟨0, [(0, shape)]⟩ => some shape
  | _ => none

/-- The rows begin neither with notes nor with a tree that stands deeper. -/
def Ends (depth : Nat) (rows : List Row) : Prop :=
  (plant rows).notes = 0 ∧ ∀ tree ∈ (plant rows).trees.head?, tree.1 ≤ depth

theorem Ends.succ {depth : Nat} {rows : List Row} (h : Ends depth rows) : Ends (depth + 1) rows :=
  ⟨h.1, fun tree htree => Nat.le_succ_of_le (h.2 tree htree)⟩

theorem plant_notes {α : Type} (depth : Nat) (notes : List α) (rows : List Row) :
    plant (notes.map (fun _ => ⟨depth, true⟩) ++ rows) =
      { plant rows with notes := (plant rows).notes + notes.length } := by
  induction notes with
  | nil => rfl
  | cons note notes ih =>
    rw [List.map_cons, List.cons_append, plant, ih]
    rfl

/-- Of the trees that follow a field those below it are told by their depth. -/
theorem split_trees {depth : Nat} {rows : List Row} (h : Ends depth rows) (below : List Shape) :
    let trees := below.map (depth + 1, ·) ++ (plant rows).trees
    trees.takeWhile (depth < ·.1) = below.map (depth + 1, ·) ∧
      trees.dropWhile (depth < ·.1) = (plant rows).trees := by
  have hdeeper : ∀ tree ∈ below.map (depth + 1, ·), decide (depth < tree.1) = true := by
    intro tree htree
    obtain ⟨shape, -, rfl⟩ := List.mem_map.mp htree
    exact decide_eq_true (Nat.lt_succ_self depth)
  exact takeWhile_dropWhile_append hdeeper fun tree htree =>
    decide_eq_false (Nat.not_lt.mpr (h.2 tree htree))

mutual

/-- The rows of a tree make up its shape, whatever rows follow that are not deeper. -/
theorem plant_outline : ∀ (depth : Nat) (n : Node) {rows : List Row}, Ends depth rows →
    plant ((n.outline depth).flatMap Node.Line.rows ++ rows) =
      ⟨0, (depth, n.shape) :: (plant rows).trees⟩
  | depth, ⟨name, value, notes, children⟩, rows, h => by
    have hbelow := plant_outlineIn (depth + 1) children h.succ
    obtain ⟨htake, hdrop⟩ := split_trees h (Node.shapes children)
    have hsnd : ((Node.shapes children).map (depth + 1, ·)).map Prod.snd = Node.shapes children := by
      rw [List.map_map]
      exact List.map_id _
    rw [Node.outline, List.flatMap_cons, Node.Line.rows, List.append_assoc, List.cons_append, plant,
      plant_notes, hbelow]
    simp only [Bool.false_eq_true, if_false, htake, hdrop, hsnd, Nat.zero_add, Node.shape]

theorem plant_outlineIn : ∀ (depth : Nat) (nodes : List Node) {rows : List Row}, Ends depth rows →
    plant ((Node.outlineIn depth nodes).flatMap Node.Line.rows ++ rows) =
      ⟨0, (Node.shapes nodes).map (depth, ·) ++ (plant rows).trees⟩
  | depth, [], rows, h => congrArg (Stand.mk · (plant rows).trees) h.1
  | depth, child :: more, rows, h => by
    have hmore := plant_outlineIn depth more h
    have hends : Ends depth ((Node.outlineIn depth more).flatMap Node.Line.rows ++ rows) := by
      rw [Ends, hmore]
      refine ⟨rfl, fun tree htree => ?_⟩
      cases more with
      | nil => exact h.2 tree htree
      | cons next more =>
        obtain rfl := Option.some.inj htree
        exact Nat.le_refl depth
    rw [Node.outlineIn, List.flatMap_append, List.append_assoc, plant_outline depth child hends, hmore]
    rfl

end

theorem plant_outline_nil (n : Node) :
    plant ((n.outline 0).flatMap Node.Line.rows) = ⟨0, [(0, n.shape)]⟩ := by
  have hends : Ends 0 [] := ⟨rfl, nofun⟩
  have hplant := plant_outline 0 n hends
  rwa [List.append_nil] at hplant

end Shape

namespace Node

/-- Nothing that the tree shows is mistaken for a new line, for blanks before a line or for a note. -/
structure Legible (n : Node) : Prop where
  unbroken : n.Unbroken
  flush : n.Flush
  unmarked : n.Unmarked

theorem Legible.ofText?_render {n : Node} (h : n.Legible) : Shape.ofText? n.render = some n.shape := by
  rw [Shape.ofText?, h.unbroken.ofLines_eq h.flush h.unmarked, Shape.plant_outline_nil]
  rfl

/-- The text of a tree that holds no line feed has one line for every field, in the order of places and indented by
its depth, and after it one for each of its notes, one level deeper. Where no name begins with a blank the depth of
each line is read back. Where none begins as notes do either the shape of the tree is, and trees of the same text
have the same shape. -/
theorem render_tells_shape :
    (∀ n : Node, n.Unbroken →
      let texts := (n.outline 0).flatMap Line.texts
      n.places.Pairwise (· < ·) ∧ (∀ place, place ∈ n.places ↔ (n.at? place).isSome) ∧
        (n.outline 0).map some = (n.places.map fun place => (n.at? place).map (lineAt place.length)) ∧
        n.render = String.join (texts.map (· ++ "\n")) ∧ (∀ text ∈ texts, Text.Unbroken text)) ∧
    (∀ n : Node, n.Unbroken → n.Flush →
      (Row.ofLines n.render).map Row.depth = ((n.outline 0).flatMap Line.rows).map Row.depth) ∧
    (∀ n : Node, n.Legible → Shape.ofText? n.render = some n.shape) ∧
    ∀ n m : Node, n.Legible → m.Legible → n.render = m.render → n.shape = m.shape := by
  refine ⟨fun n h => ⟨pairwise_places n, mem_places n, ?_, n.render_eq, h.texts⟩, fun n h => h.map_depth_ofLines,
    fun n h => h.ofText?_render, fun n m hn hm hsame => ?_⟩
  · rw [← visits_outline.map_places]
    simp only [Nat.zero_add]
  · have hshape := hn.ofText?_render
    rw [hsame, hm.ofText?_render] at hshape
    exact (Option.some.inj hshape).symm

/-- Fields with and without notes and labels. -/
def roadworks : Node :=
  { name := "situation"
    children :=
      [ { name := "eventType"
          children :=
            [ leaf "causeCode" (.enumerated 3 (some "roadworks")),
              (leaf "subCauseCode" (.enumerated 42 none)).addNote ⟨.warn, "odd"⟩ ] },
        raw [0xca, 0xfe] ] }

theorem render_tells_shape_roadworks :
    roadworks.Legible ∧
      roadworks.render =
        "situation\n    eventType\n        causeCode: roadworks (3)\n        subCauseCode: Unknown (42)\n" ++
          "            [Expert Info (Warn): odd]\n    data: cafe\n" ∧
      (Row.ofLines roadworks.render).map Row.depth = [0, 1, 2, 2, 3, 1] ∧
      Shape.ofText? roadworks.render = some ⟨0, [⟨0, [⟨0, []⟩, ⟨1, []⟩]⟩, ⟨0, []⟩]⟩ := by
  have h : roadworks.Legible := ⟨by decide +kernel, by decide +kernel, by decide +kernel⟩
  obtain ⟨htext, hdepths, hshape, -⟩ := render_tells_shape
  exact ⟨h, by decide +kernel, hdepths _ h.unbroken h.flush, hshape _ h⟩

-- blanks before a name are taken for depth
example :
    let flat : Node := { name := "a", children := [{ name := "b" }, { name := "    c" }] }
    let deep : Node := { name := "a", children := [{ name := "b", children := [{ name := "c" }] }] }
    flat.render = deep.render := by decide +kernel

end Node

end V2x
