import Mathlib.Data.List.TakeWhile
import V2x.Text.Blank
import V2x.Text.Numeral

/-!
# Lines and numerals

What splitting a text at a character comes to, and which texts are read as a number.
-/

namespace V2x.Text

theorem splitFirst?_of_not_mem {c : Char} {text : String} (h : c ∉ text.toList) :
    splitFirst? c text = none := by
  have hall : ∀ d ∈ text.toList, decide (d ≠ c) = true := by
    intro d hd
    exact decide_eq_true fun hdc => h (hdc ▸ hd)
  rw [splitFirst?, List.dropWhile_eq_nil_iff.mpr hall]

theorem splitFirst?_of_append {c : Char} {text left right : String}
    (h : text.toList = left.toList ++ c :: right.toList) (hleft : c ∉ left.toList) :
    splitFirst? c text = some (left, right) := by
  have hall : ∀ d ∈ left.toList, decide (d ≠ c) = true := by
    intro d hd
    exact decide_eq_true fun hdc => hleft (hdc ▸ hd)
  rw [splitFirst?, h, List.dropWhile_append_of_pos hall, List.takeWhile_append_of_pos hall]
  simp

/-! ## Lines -/

theorem splitAll_of_not_mem {c : Char} {part : List Char} (h : c ∉ part) : splitAll c part = [part] := by
  induction part with
  | nil => rfl
  | cons d part ih =>
    simp only [List.mem_cons, not_or] at h
    simp only [splitAll, Ne.symm h.1, ite_false, ih h.2]

theorem splitAll_append {c : Char} {part : List Char} (h : c ∉ part) (rest : List Char) :
    splitAll c (part ++ c :: rest) = part :: splitAll c rest := by
  induction part with
  | nil => simp [splitAll]
  | cons d part ih =>
    simp only [List.mem_cons, not_or] at h
    simp only [List.cons_append, splitAll, Ne.symm h.1, ite_false, ih h.2]

/-- The input consists of the lines, each of them ended by a line feed or the last one by the end of the input. -/
def Input (lines : List String) (input : String) : Prop :=
  (∀ line ∈ lines, '\n' ∉ line.toList) ∧
    (input = "\n".intercalate lines ∨ input = String.join (lines.map (· ++ "\n")))

theorem lines_intercalate {ls : List String} (hne : ls ≠ [])
    (h : ∀ line ∈ ls, '\n' ∉ line.toList) : lines ("\n".intercalate ls) = ls := by
  induction ls with
  | nil => exact absurd rfl hne
  | cons line ls ih =>
    have hfirst := h line List.mem_cons_self
    cases ls with
    | nil => simp [lines, splitAll_of_not_mem hfirst]
    | cons next more =>
      have hmore := ih (List.cons_ne_nil _ _) fun line hline => h line (List.mem_cons_of_mem _ hline)
      have hfeed : "\n".toList = ['\n'] := rfl
      simp only [lines, String.toList_intercalate, List.map_cons, hfeed] at hmore ⊢
      rw [List.intercalate_cons_cons, List.append_assoc, List.singleton_append,
        splitAll_append hfirst, List.map_cons, hmore, String.ofList_toList]

theorem lines_join {ls : List String} (h : ∀ line ∈ ls, '\n' ∉ line.toList) :
    lines (String.join (ls.map (· ++ "\n"))) = ls ++ [""] := by
  induction ls with
  | nil => rfl
  | cons line ls ih =>
    have hfirst := h line List.mem_cons_self
    have hmore := ih fun line hline => h line (List.mem_cons_of_mem _ hline)
    simp only [lines, String.toList_join] at hmore ⊢
    simp [splitAll_append hfirst, hmore]

/-- Beyond its lines, an input may have an empty one at its end. -/
theorem lines_of_input {ls : List String} {input : String} (h : Input ls input) :
    lines input = ls ∨ lines input = ls ++ [""] := by
  obtain ⟨hlines, rfl | rfl⟩ := h
  · by_cases hne : ls = []
    · subst hne
      exact .inr rfl
    · exact .inl (lines_intercalate hne hlines)
  · exact .inr (lines_join hlines)

namespace Numeral

/-- The number that digits stand for after digits that stand for `n`. -/
def valueFrom (n : Nat) (digits : List Char) : Nat :=
  digits.foldl (fun n c => 10 * n + (c.toNat - '0'.toNat)) n

/-- Digits, maybe after a plus sign, that stand for the number. -/
def Denotes (text : String) (n : Nat) : Prop :=
  ∃ digits, (text.toList = digits ∨ text.toList = '+' :: digits) ∧ digits ≠ [] ∧
    (∀ c ∈ digits, c.isDigit = true) ∧ valueFrom 0 digits = n

theorem le_valueFrom (n : Nat) (cs : List Char) : n ≤ valueFrom n cs := by
  induction cs generalizing n with
  | nil => exact Nat.le_refl n
  | cons c cs ih =>
    have hnext := ih (10 * n + (c.toNat - '0'.toNat))
    simp only [valueFrom, List.foldl_cons] at hnext ⊢
    omega

theorem digits_eq_ok {limit n m : Nat} {cs : List Char} (hn : n ≤ limit) :
    digits limit n cs = .ok m ↔
      (∀ c ∈ cs, c.isDigit = true) ∧ valueFrom n cs = m ∧ m ≤ limit := by
  induction cs generalizing n with
  | nil =>
    simp only [digits, valueFrom, List.foldl_nil, Except.ok.injEq, List.not_mem_nil, false_implies,
      implies_true, true_and]
    constructor
    · rintro rfl
      exact ⟨rfl, hn⟩
    · exact And.left
  | cons c cs ih =>
    unfold digits
    by_cases hc : c.isDigit = true
    · rw [if_pos hc]
      by_cases hnext : limit < 10 * n + (c.toNat - '0'.toNat)
      · have hle := le_valueFrom (10 * n + (c.toNat - '0'.toNat)) cs
        simp only [hnext, if_true, reduceCtorEq, false_iff, not_and]
        rintro - rfl
        simp only [valueFrom, List.foldl_cons] at hle ⊢
        omega
      · simp only [hnext, if_false]
        rw [ih (Nat.le_of_not_lt hnext)]
        simp [valueFrom, hc]
    · rw [if_neg hc]
      simp [hc]

theorem parse_eq_ok {limit n : Nat} {text : String} :
    parse limit text = .ok n ↔ Denotes text n ∧ n ≤ limit := by
  have hdigits : ∀ rest : List Char, digits limit 0 rest = .ok n ↔
      (∀ c ∈ rest, c.isDigit = true) ∧ valueFrom 0 rest = n ∧ n ≤ limit :=
    fun rest => digits_eq_ok (Nat.zero_le limit)
  have hplus : ∀ rest : List Char, ¬ ∀ c ∈ '+' :: rest, c.isDigit = true := by
    intro rest h
    exact absurd (h '+' List.mem_cons_self) (by decide)
  unfold parse Denotes
  split
  · next h => simp [h]
  · next h => simp [h]
  · next rest hne h =>
    rw [hdigits, h]
    constructor
    · rintro ⟨hall, hvalue, hle⟩
      exact ⟨⟨rest, .inr rfl, hne, hall, hvalue⟩, hle⟩
    · rintro ⟨⟨ds, rfl | hds, -, hall, hvalue⟩, hle⟩
      · exact absurd hall (hplus rest)
      · obtain rfl := (List.cons.inj hds).2
        exact ⟨hall, hvalue, hle⟩
  · next hnil _ hmore =>
    rw [hdigits]
    constructor
    · rintro ⟨hall, hvalue, hle⟩
      exact ⟨⟨_, .inl rfl, hnil, hall, hvalue⟩, hle⟩
    · rintro ⟨⟨ds, rfl | hds, -, hall, hvalue⟩, hle⟩
      · exact ⟨hall, hvalue, hle⟩
      · exact absurd hds (hmore ds)

end Numeral

end V2x.Text
