/-!
# Maps in ascending order

A map is the list of its entries by ascending key. Two maps that answer every look-up alike are
equal, however they were built (`ext_get?`).
-/

namespace V2x

/-- Keys that are told apart and ordered by a number. -/
class Ranked (κ : Type) where
  rank : κ → Nat
  rank_injective : ∀ a b, rank a = rank b → a = b

instance : Ranked UInt8 where
  rank := UInt8.toNat
  rank_injective _ _ := UInt8.toNat.inj

theorem rank_inj {κ : Type} [Ranked κ] {a b : κ} : Ranked.rank a = Ranked.rank b ↔ a = b :=
  ⟨Ranked.rank_injective a b, fun h => h ▸ rfl⟩

abbrev Ascending {κ α : Type} [Ranked κ] (entries : List (κ × α)) : Prop :=
  entries.Pairwise fun a b => Ranked.rank a.1 < Ranked.rank b.1

structure OrderedMap (κ α : Type) [Ranked κ] where
  entries : List (κ × α) := []
  ascending : Ascending entries := by exact List.Pairwise.nil

namespace OrderedMap

variable {κ α : Type} [Ranked κ]

def insertEntry (key : κ) (value : α) : List (κ × α) → List (κ × α)
  | [] => [(key, value)]
  | (k, v) :: more =>
    if Ranked.rank key < Ranked.rank k then (key, value) :: (k, v) :: more
    else if Ranked.rank key = Ranked.rank k then (key, value) :: more
    else (k, v) :: insertEntry key value more

theorem eq_or_mem_of_mem_insertEntry {key : κ} {value : α} {entry : κ × α} :
    ∀ {entries : List (κ × α)}, entry ∈ insertEntry key value entries →
      entry = (key, value) ∨ entry ∈ entries
  | [], h => .inl (List.mem_singleton.mp h)
  | (k, v) :: more, h => by
    unfold insertEntry at h
    split at h
    · exact List.mem_cons.mp h
    split at h
    · exact (List.mem_cons.mp h).imp_right (List.mem_cons_of_mem _)
    · rcases List.mem_cons.mp h with h | h
      · exact .inr (h ▸ List.mem_cons_self)
      · exact (eq_or_mem_of_mem_insertEntry h).imp_right (List.mem_cons_of_mem _)

theorem ascending_insertEntry (key : κ) (value : α) : ∀ {entries : List (κ × α)},
    Ascending entries → Ascending (insertEntry key value entries)
  | [], _ => List.pairwise_singleton _ _
  | (k, v) :: more, h => by
    have ⟨hk, hmore⟩ := List.pairwise_cons.mp h
    unfold insertEntry
    split
    · next hlt =>
      refine List.pairwise_cons.mpr ⟨fun entry he => ?_, h⟩
      rcases List.mem_cons.mp he with rfl | he
      · exact hlt
      · exact Nat.lt_trans hlt (hk entry he)
    split
    · next heq => exact List.pairwise_cons.mpr ⟨fun entry he => heq ▸ hk entry he, hmore⟩
    · next hlt heq =>
      refine List.pairwise_cons.mpr ⟨fun entry he => ?_, ascending_insertEntry key value hmore⟩
      rcases eq_or_mem_of_mem_insertEntry he with rfl | he
      · exact Nat.lt_of_le_of_ne (Nat.le_of_not_lt hlt) (Ne.symm heq)
      · exact hk entry he

def insert (key : κ) (value : α) (m : OrderedMap κ α) : OrderedMap κ α :=
  ⟨insertEntry key value m.entries, ascending_insertEntry key value m.ascending⟩

def erase (key : κ) (m : OrderedMap κ α) : OrderedMap κ α :=
  ⟨m.entries.filter fun entry => Ranked.rank entry.1 ≠ Ranked.rank key, m.ascending.filter _⟩

def get? (m : OrderedMap κ α) (key : κ) : Option α :=
  (m.entries.find? fun entry => Ranked.rank entry.1 = Ranked.rank key).map Prod.snd

def contains (m : OrderedMap κ α) (key : κ) : Bool :=
  (m.get? key).isSome

def empty : OrderedMap κ α := {}

def size (m : OrderedMap κ α) : Nat :=
  m.entries.length

def isEmpty (m : OrderedMap κ α) : Bool :=
  m.entries.isEmpty

def keys (m : OrderedMap κ α) : List κ :=
  m.entries.map Prod.fst

def values (m : OrderedMap κ α) : List α :=
  m.entries.map Prod.snd

/-! ## Look-ups -/

@[simp] theorem get?_empty (key : κ) : ({} : OrderedMap κ α).get? key = none := rfl

theorem find?_insertEntry (key k : κ) (value : α) : ∀ entries : List (κ × α),
    (insertEntry key value entries).find? (fun entry => Ranked.rank entry.1 = Ranked.rank k) =
      if Ranked.rank key = Ranked.rank k then some (key, value)
      else entries.find? fun entry => Ranked.rank entry.1 = Ranked.rank k
  | [] => by
    by_cases h : Ranked.rank key = Ranked.rank k <;> simp [insertEntry, h]
  | (k', v) :: more => by
    have ih := find?_insertEntry key k value more
    unfold insertEntry
    by_cases h : Ranked.rank key = Ranked.rank k
    · split
      · simp [h]
      split
      · simp [h]
      · next hne =>
        have hk : ¬ Ranked.rank k' = Ranked.rank k := fun e => hne (h.trans e.symm)
        simp [ih, h, hk]
    · split
      · simp [h]
      split
      · next heq =>
        have hk : ¬ Ranked.rank k' = Ranked.rank k := fun e => h (heq.trans e)
        simp [h, hk]
      · rw [List.find?_cons, List.find?_cons, ih, if_neg h]

theorem get?_insert (m : OrderedMap κ α) (key k : κ) (value : α) :
    (m.insert key value).get? k =
      if Ranked.rank key = Ranked.rank k then some value else m.get? k := by
  unfold get? insert
  rw [find?_insertEntry]
  split <;> rfl

theorem get?_erase (m : OrderedMap κ α) (key k : κ) :
    (m.erase key).get? k = if Ranked.rank key = Ranked.rank k then none else m.get? k := by
  unfold get? erase
  rw [List.find?_filter]
  split
  · next h =>
    rw [List.find?_eq_none.mpr (by simp [h])]
    rfl
  · next h =>
    congr 2
    funext entry
    by_cases he : Ranked.rank entry.1 = Ranked.rank k
    · simp [he, Ne.symm h]
    · simp [he]

theorem get?_eq_some_iff (m : OrderedMap κ α) (key : κ) (value : α) :
    m.get? key = some value ↔ (key, value) ∈ m.entries := by
  obtain ⟨entries, ascending⟩ := m
  unfold get?
  induction entries with
  | nil => simp
  | cons entry more ih =>
    have ⟨hk, hmore⟩ := List.pairwise_cons.mp ascending
    have ih := ih hmore
    simp only at ih
    by_cases h : Ranked.rank entry.1 = Ranked.rank key
    · rw [List.find?_cons_of_pos (by simpa using h)]
      constructor
      · intro hv
        obtain rfl := Option.some.inj hv
        obtain rfl := rank_inj.mp h
        exact List.mem_cons_self
      · intro hm
        rcases List.mem_cons.mp hm with rfl | hm
        · rfl
        · exact absurd h (Nat.ne_of_lt (hk _ hm))
    · rw [List.find?_cons_of_neg (by simpa using h), ih, List.mem_cons]
      exact ⟨.inr, fun hm => hm.resolve_left fun e => h (e ▸ rfl)⟩

theorem eq_of_mem_iff {a b : List (κ × α)} (ha : Ascending a) (hb : Ascending b)
    (h : ∀ entry, entry ∈ a ↔ entry ∈ b) : a = b := by
  induction a generalizing b with
  | nil =>
    cases b with
    | nil => rfl
    | cons y b => exact absurd ((h y).mpr List.mem_cons_self) List.not_mem_nil
  | cons x a ih =>
    cases b with
    | nil => exact absurd ((h x).mp List.mem_cons_self) List.not_mem_nil
    | cons y b =>
      have ⟨hx, ha⟩ := List.pairwise_cons.mp ha
      have ⟨hy, hb'⟩ := List.pairwise_cons.mp hb
      have hxy : x = y := by
        rcases List.mem_cons.mp ((h x).mp List.mem_cons_self) with e | hxb
        · exact e
        rcases List.mem_cons.mp ((h y).mpr List.mem_cons_self) with e | hya
        · exact e.symm
        · exact absurd (hx y hya) (Nat.lt_asymm (hy x hxb))
      subst hxy
      refine congrArg (x :: ·) (ih ha hb' fun entry => ?_)
      constructor
      · intro he
        exact (List.mem_cons.mp ((h entry).mp (List.mem_cons_of_mem _ he))).resolve_left
          fun e => Nat.lt_irrefl _ (e ▸ hx entry he)
      · intro he
        exact (List.mem_cons.mp ((h entry).mpr (List.mem_cons_of_mem _ he))).resolve_left
          fun e => Nat.lt_irrefl _ (e ▸ hy entry he)

/-- Maps that answer every look-up alike are equal. -/
theorem ext_get? {m n : OrderedMap κ α} (h : ∀ key, m.get? key = n.get? key) : m = n := by
  have he : m.entries = n.entries := eq_of_mem_iff m.ascending n.ascending fun (key, value) => by
    rw [← get?_eq_some_iff, ← get?_eq_some_iff, h]
  obtain ⟨entries, _⟩ := m
  obtain rfl : entries = n.entries := he
  rfl

end OrderedMap

end V2x
