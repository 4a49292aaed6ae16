import Mathlib.Data.List.Basic

/-!
# Characters as octets

A text is the concatenation of its characters' octets. Those of ASCII characters tell the characters, and the
octets of all others are none of ASCII.
-/

namespace V2x.Text.Utf8

theorem toList_loop (data : ByteArray) (i : Nat) (read : List UInt8) :
    ByteArray.toList.loop data i read = read.reverse ++ data.data.toList.drop i := by
  fun_induction ByteArray.toList.loop data i read with
  | case1 i read h ih =>
    have hi : i < data.data.toList.length := by simpa using h
    rw [ih, List.drop_eq_getElem_cons hi]
    simp [ByteArray.get!, h]
  | case2 i read h =>
    have hi : data.data.toList.length ≤ i := by simpa using Nat.le_of_not_lt h
    rw [List.drop_of_length_le hi, List.append_nil]

theorem toList_toUTF8 (text : String) :
    text.toUTF8.toList = text.toList.flatMap String.utf8EncodeChar := by
  have hbytes : text.toUTF8 = (text.toList.flatMap String.utf8EncodeChar).toByteArray :=
    String.utf8Encode_toList.symm
  rw [hbytes, ByteArray.toList, toList_loop, List.reverse_nil, List.nil_append, List.drop_zero,
    List.toList_data_toByteArray]

theorem utf8EncodeChar_of_lt {c : Char} (h : c.toNat < 128) :
    String.utf8EncodeChar c = [UInt8.ofNat c.toNat] := by
  have hle : c.val.toNat ≤ 127 := Nat.le_of_lt_succ h
  rw [String.utf8EncodeChar, if_pos hle]
  rfl

theorem le_of_mem_utf8EncodeChar {c : Char} (h : 128 ≤ c.toNat) {octet : UInt8}
    (ho : octet ∈ String.utf8EncodeChar c) : 128 ≤ octet.toNat := by
  have hlt : ¬ c.val.toNat ≤ 127 := by
    have : c.toNat = c.val.toNat := rfl
    omega
  unfold String.utf8EncodeChar at ho
  simp only [hlt, if_false] at ho
  split at ho
  · simp only [List.mem_cons, List.not_mem_nil, or_false] at ho
    rcases ho with rfl | rfl <;> rw [UInt8.toNat_ofNat'] <;> omega
  · split at ho
    · simp only [List.mem_cons, List.not_mem_nil, or_false] at ho
      rcases ho with rfl | rfl | rfl <;> rw [UInt8.toNat_ofNat'] <;> omega
    · simp only [List.mem_cons, List.not_mem_nil, or_false] at ho
      rcases ho with rfl | rfl | rfl | rfl <;> rw [UInt8.toNat_ofNat'] <;> omega

/-- The character that the octet is, if it is ASCII. -/
def charOf (octet : UInt8) : Char :=
  Char.ofNat octet.toNat

theorem charOf_toNat {c : Char} (h : c.toNat < 128) : charOf (UInt8.ofNat c.toNat) = c := by
  rw [charOf, UInt8.toNat_ofNat_of_lt' (by exact Nat.lt_trans h (by decide)), Char.ofNat_toNat]

/-- Characters can be told from their octets if these are ASCII. -/
theorem map_charOf {cs : List Char}
    (h : ∀ octet ∈ cs.flatMap String.utf8EncodeChar, octet.toNat < 128) :
    (cs.flatMap String.utf8EncodeChar).map charOf = cs := by
  induction cs with
  | nil => rfl
  | cons c cs ih =>
    rw [List.flatMap_cons] at h ⊢
    have hmore := ih fun octet ho => h octet (List.mem_append_right _ ho)
    have hc : c.toNat < 128 := by
      by_contra hc
      obtain ⟨octet, ho⟩ := List.exists_mem_of_ne_nil _ (String.utf8EncodeChar_ne_nil (c := c))
      have hle := le_of_mem_utf8EncodeChar (Nat.le_of_not_lt hc) ho
      have hlt := h octet (List.mem_append_left _ ho)
      omega
    rw [List.map_append, hmore, utf8EncodeChar_of_lt hc, List.map_singleton, charOf_toNat hc,
      List.singleton_append]

theorem flatMap_of_lt {cs : List Char} (h : ∀ c ∈ cs, c.toNat < 128) :
    cs.flatMap String.utf8EncodeChar = cs.map fun c => UInt8.ofNat c.toNat := by
  rw [List.map_eq_flatMap]
  exact List.flatMap_congr fun c hc => utf8EncodeChar_of_lt (h c hc)

theorem lt_of_mem_flatMap {cs : List Char} (h : ∀ c ∈ cs, c.toNat < 128) :
    ∀ octet ∈ cs.flatMap String.utf8EncodeChar, octet.toNat < 128 := by
  rw [flatMap_of_lt h]
  intro octet ho
  obtain ⟨c, hc, rfl⟩ := List.mem_map.mp ho
  have := h c hc
  rw [UInt8.toNat_ofNat_of_lt' (by exact Nat.lt_trans this (by decide))]
  exact this

end V2x.Text.Utf8
