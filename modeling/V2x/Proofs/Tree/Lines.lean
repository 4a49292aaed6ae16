import V2x.Proofs.Text
import V2x.Proofs.Text.Hex
import V2x.Proofs.Tree.Place
import V2x.Tree.Render

/-!
# The lines of a tree

The text of a tree goes through its outline: a line for the field, then one for each of its notes. As long as what
it shows holds no line feed, these are the lines into which the text falls (`lines_render`).
-/

namespace V2x

def Text.Unbroken (text : String) : Prop :=
  '\n' ∉ text.toList

instance : DecidablePred Text.Unbroken :=
  fun text => inferInstanceAs (Decidable ('\n' ∉ text.toList))

theorem Text.Unbroken.append {a b : String} (ha : Unbroken a) (hb : Unbroken b) : Unbroken (a ++ b) := by
  rw [Unbroken, String.toList_append, List.mem_append]
  exact fun h => h.elim ha hb

theorem Text.unbroken_nat (n : Nat) : Unbroken (toString n) := by
  intro h
  have hdigits : (toString n).toList = Nat.toDigits 10 n := String.toList_ofList
  rw [hdigits] at h
  exact absurd (Nat.isDigit_of_mem_toDigits (by decide) (by decide) h) (by decide)

theorem Text.unbroken_int (n : Int) : Unbroken (toString n) := by
  cases n with
  | ofNat n => exact unbroken_nat n
  | negSucc n => exact Unbroken.append (show Unbroken "-" by decide) (unbroken_nat (n + 1))

namespace Value

/-- The text or label in the value holds no line feed. -/
def Unbroken : Value → Prop
  | .text s | .enumerated _ (some s) => Text.Unbroken s
  | .none | .unsigned _ | .signed _ | .flag _ | .octets _ | .enumerated _ Option.none => True

instance : DecidablePred Unbroken
  | .text s | .enumerated _ (some s) => inferInstanceAs (Decidable (Text.Unbroken s))
  | .none | .unsigned _ | .signed _ | .flag _ | .octets _ | .enumerated _ Option.none =>
    inferInstanceAs (Decidable True)

theorem Unbroken.render {value : Value} (h : value.Unbroken) : Text.Unbroken value.render := by
  cases value with
  | none => exact show Text.Unbroken "" by decide
  | unsigned n => exact Text.unbroken_nat n
  | signed n => exact Text.unbroken_int n
  | flag b => cases b <;> decide
  | octets data =>
    intro hfeed
    obtain ⟨n, hn⟩ := (Text.Hex.spells_encode data).isDigit_of_mem '\n' hfeed
    exact hn.not_isSeparator (by decide)
  | enumerated n label =>
    cases label with
    | none =>
      have hbefore : Text.Unbroken "Unknown (" := by decide
      exact (hbefore.append (Text.unbroken_nat n)).append (by decide)
    | some label =>
      have hbefore : Text.Unbroken (label ++ " (") :=
        Text.Unbroken.append h (by decide)
      exact (hbefore.append (Text.unbroken_nat n)).append (by decide)
  | text s => exact h

end Value

/-- The text of a note behind its blanks. -/
def Note.caption (note : Note) : String :=
  s!"[Expert Info ({note.severity.name}): {note.message}]"

theorem Note.line_eq (depth : Nat) (note : Note) :
    note.line depth = indentation depth ++ note.caption := by
  have hshown : indentation depth ++ "[Expert Info (" ++ note.severity.name ++ "): " ++ note.message ++ "]" =
      indentation depth ++ ("[Expert Info (" ++ note.severity.name ++ "): " ++ note.message ++ "]") := by
    simp only [String.append_assoc]
  exact hshown

namespace Node

/-- The text of a field behind its blanks. -/
def heading (name : String) : Value → String
  | .none => name
  | value => s!"{name}: {value.render}"

theorem line_eq (depth : Nat) (name : String) (value : Value) :
    line depth name value = indentation depth ++ heading name value := by
  have hshown : indentation depth ++ name ++ ": " ++ value.render =
      indentation depth ++ (name ++ ": " ++ value.render) := by
    simp only [String.append_assoc]
  cases value with
  | none => rfl
  | unsigned | signed | flag | octets | enumerated | text => exact hshown

/-- The field's own line, and those of its notes. -/
def Line.texts (l : Line) : List String :=
  (indentation l.depth ++ heading l.name l.value) ::
    l.notes.map fun note => indentation (l.depth + 1) ++ note.caption

mutual

theorem lines_eq : ∀ (depth : Nat) (n : Node), n.lines depth = (n.outline depth).flatMap Line.texts
  | depth, ⟨name, value, notes, children⟩ => by
    have hnotes : notes.map (Note.line (depth + 1)) =
        notes.map fun note => indentation (depth + 1) ++ note.caption :=
      List.map_congr_left fun note _ => note.line_eq (depth + 1)
    rw [lines, outline, List.flatMap_cons, line_eq, hnotes, linesIn_eq (depth + 1) children]
    rfl

theorem linesIn_eq : ∀ (depth : Nat) (nodes : List Node),
    linesIn depth nodes = (outlineIn depth nodes).flatMap Line.texts
  | _, [] => rfl
  | depth, child :: more => by
    rw [linesIn, outlineIn, List.flatMap_append, lines_eq depth child, linesIn_eq depth more]

end

theorem mem_outline {depth : Nat} {n : Node} {l : Line} (h : l ∈ n.outline depth) :
    ∃ m ∈ n.preorder, l = lineAt l.depth m := by
  have hsome : some l ∈ (n.outline depth).map some := List.mem_map_of_mem h
  rw [← visits_outline.map_places] at hsome
  obtain ⟨place, hplace, hl⟩ := List.mem_map.mp hsome
  obtain ⟨m, hm, rfl⟩ := Option.map_eq_some_iff.mp hl
  have hpre : some m ∈ n.preorder.map some := by
    rw [← map_at?_places, ← hm]
    exact List.mem_map_of_mem (f := (n.at? ·)) hplace
  obtain ⟨m', hm', heq⟩ := List.mem_map.mp hpre
  obtain rfl := Option.some.inj heq
  exact ⟨m', hm', rfl⟩

/-- What the tree shows holds no line feed. -/
def Unbroken (n : Node) : Prop :=
  ∀ m ∈ n.preorder,
    Text.Unbroken m.name ∧ m.value.Unbroken ∧ ∀ note ∈ m.notes, Text.Unbroken note.message

instance : DecidablePred Unbroken :=
  fun n => inferInstanceAs (Decidable (∀ m ∈ n.preorder, _ ∧ _ ∧ ∀ note ∈ m.notes, _))

theorem unbroken_heading {name : String} {value : Value} (hname : Text.Unbroken name)
    (hvalue : value.Unbroken) : Text.Unbroken (heading name value) := by
  have hcolon : Text.Unbroken (name ++ ": ") := hname.append (by decide)
  have hshown := hcolon.append hvalue.render
  cases value with
  | none => exact hname
  | unsigned | signed | flag | octets | enumerated | text => exact hshown

theorem unbroken_indentation (depth : Nat) : Text.Unbroken (indentation depth) := by
  rw [Text.Unbroken, indentation, String.toList_ofList, List.mem_replicate]
  exact fun h => absurd h.2 (by decide)

theorem unbroken_caption {note : Note} (h : Text.Unbroken note.message) : Text.Unbroken note.caption := by
  have hname : Text.Unbroken note.severity.name := by cases note.severity <;> decide
  have hbefore : Text.Unbroken ("[Expert Info (" ++ note.severity.name ++ "): ") :=
    (Text.Unbroken.append (by decide) hname).append (by decide)
  exact (hbefore.append h).append (by decide)

theorem Unbroken.texts {n : Node} (h : n.Unbroken) {depth : Nat} :
    ∀ text ∈ (n.outline depth).flatMap Line.texts, Text.Unbroken text := by
  intro text htext
  obtain ⟨l, hl, htext⟩ := List.mem_flatMap.mp htext
  obtain ⟨m, hm, heq⟩ := mem_outline hl
  obtain ⟨hname, hvalue, hnotes⟩ := h m hm
  rw [heq] at htext
  rcases List.mem_cons.mp htext with rfl | htext
  · exact (unbroken_indentation _).append (unbroken_heading hname hvalue)
  · obtain ⟨note, hnote, rfl⟩ := List.mem_map.mp htext
    exact (unbroken_indentation _).append (unbroken_caption (hnotes note hnote))

theorem render_eq (n : Node) :
    n.render = String.join (((n.outline 0).flatMap Line.texts).map (· ++ "\n")) := by
  rw [render, lines_eq]

/-- The lines into which the text falls are those of the fields and notes; behind the last line feed is nothing. -/
theorem Unbroken.lines_render {n : Node} (h : n.Unbroken) :
    Text.lines n.render = (n.outline 0).flatMap Line.texts ++ [""] := by
  rw [render_eq]
  exact Text.lines_join h.texts

end Node

end V2x
