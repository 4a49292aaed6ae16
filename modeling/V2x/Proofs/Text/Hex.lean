import V2x.Proofs.Text.Utf8
import V2x.Tree.Value

/-!
# What hexadecimal text is read

Text is read octet by octet of its UTF-8 form, and a pair of these may be part of any characters. Every pair
that is read consists of two whole ASCII characters all the same, so that reading is told by the characters
(`decode_eq_ok`): digits, with the exception that a plus sign may stand for the first digit of an octet
(`decode_accepts`). The text shown for octets is read back however it is spaced and in either case
(`decode_respelled`).
-/

namespace V2x.Text.Hex

/-! ## Separators -/

def separators : List Char :=
  ['\t', '\n', '\x0c', '\r', ' ', ':']

def IsSeparator (c : Char) : Prop :=
  c ∈ separators

instance : DecidablePred IsSeparator :=
  fun c => inferInstanceAs (Decidable (c ∈ separators))

/-- The characters of the text that are no separators. -/
def unseparated (text : String) : List Char :=
  text.toList.filter (¬ IsSeparator ·)

theorem IsSeparator.lt {c : Char} (h : IsSeparator c) : c.toNat < 128 := by
  have hall : separators.all (·.toNat < 128) = true := by decide
  exact of_decide_eq_true (List.all_eq_true.mp hall c h)

theorem isSeparator_toNat {c : Char} (h : c.toNat < 128) :
    isSeparator (UInt8.ofNat c.toNat) = decide (IsSeparator c) := by
  have hall : ∀ k < 128, isSeparator (UInt8.ofNat k) = decide (IsSeparator (Char.ofNat k)) := by
    decide +kernel
  have hc := hall c.toNat h
  rwa [Char.ofNat_toNat] at hc

theorem lt_of_isSeparator {octet : UInt8} (h : isSeparator octet = true) : octet.toNat < 128 := by
  have hall : [9, 10, 12, 13, 32, (58 : UInt8)].all (·.toNat < 128) = true := by decide
  exact of_decide_eq_true (List.all_eq_true.mp hall octet (of_decide_eq_true h))

/-- Separators are the same whether looked for among characters or among octets. -/
theorem filter_flatMap (cs : List Char) :
    (cs.flatMap String.utf8EncodeChar).filter (fun octet => !isSeparator octet) =
      (cs.filter (¬ IsSeparator ·)).flatMap String.utf8EncodeChar := by
  induction cs with
  | nil => rfl
  | cons c cs ih =>
    rw [List.flatMap_cons, List.filter_append, ih, List.filter_cons]
    by_cases hc : c.toNat < 128
    · rw [Utf8.utf8EncodeChar_of_lt hc, List.filter_cons, isSeparator_toNat hc]
      by_cases hs : IsSeparator c <;> simp [hs, Utf8.utf8EncodeChar_of_lt hc]
    · -- no octet of the character is a separator, as the character is none
      have hs : ¬ IsSeparator c := fun hs => hc hs.lt
      have hall : ∀ octet ∈ String.utf8EncodeChar c, (!isSeparator octet) = true := by
        intro octet ho
        have hle := Utf8.le_of_mem_utf8EncodeChar (Nat.le_of_not_lt hc) ho
        rw [Bool.not_eq_true', ← Bool.not_eq_true]
        exact fun h => absurd (lt_of_isSeparator h) (Nat.not_lt.mpr hle)
      rw [List.filter_eq_self.mpr hall, if_pos (by simpa using hs), List.flatMap_cons]

/-! ## Digits -/

/-- The character is the digit of this value, in either case. -/
def IsDigit (c : Char) (n : Nat) : Prop :=
  digits[n]? = some c.toLower

instance (c : Char) (n : Nat) : Decidable (IsDigit c n) :=
  inferInstanceAs (Decidable (_ = _))

/-- The character can stand first for an octet: a digit, or a plus sign for the digit zero. -/
def Leads (c : Char) (n : Nat) : Prop :=
  IsDigit c n ∨ c = '+' ∧ n = 0

/-- Two characters for each octet: one that leads, and a digit. -/
inductive Spells (leads : Char → Nat → Prop) : List Char → Octets → Prop
  | nil : Spells leads [] []
  | octet {a b : Char} {high low : Nat} {cs : List Char} {data : Octets} (ha : leads a high)
    (hb : IsDigit b low) (h : Spells leads cs data) :
    Spells leads (a :: b :: cs) (UInt8.ofNat (16 * high + low) :: data)

theorem IsDigit.lt_sixteen {c : Char} {n : Nat} (h : IsDigit c n) : n < 16 := by
  obtain ⟨hn, -⟩ := List.getElem?_eq_some_iff.mp h
  exact hn

theorem IsDigit.lt {c : Char} {n : Nat} (h : IsDigit c n) : c.toNat < 128 := by
  by_contra hc
  have hsame : c.toLower = c := by
    unfold Char.toLower
    rw [dif_neg]
    rintro ⟨-, hle⟩
    have : c.toNat ≤ 90 := hle
    omega
  have hall : digits.all (·.toNat < 128) = true := by decide
  rw [IsDigit, hsame] at h
  exact hc (of_decide_eq_true (List.all_eq_true.mp hall c (List.mem_of_getElem? h)))

/-- A fact about digits is one about finitely many characters and values. -/
theorem IsDigit.of_forall {P : Char → Nat → Prop}
    (hall : ∀ k < 128, ∀ n < 16, IsDigit (Char.ofNat k) n → P (Char.ofNat k) n) {c : Char} {n : Nat}
    (h : IsDigit c n) : P c n := by
  have hc := hall c.toNat h.lt n h.lt_sixteen
  rw [Char.ofNat_toNat] at hc
  exact hc h

theorem digit?_lt {octet : UInt8} {n : Nat} (h : digit? octet = some n) :
    octet.toNat < 128 ∧ n < 16 := by
  simp only [digit?] at h
  split at h
  · cases h
    omega
  · split at h
    · cases h
      omega
    · split at h
      · cases h
        omega
      · cases h

theorem digit?_eq_some {octet : UInt8} {n : Nat} :
    digit? octet = some n ↔ octet.toNat < 128 ∧ IsDigit (Utf8.charOf octet) n := by
  have hall : ∀ k < 128, ∀ n < 16,
      digit? (UInt8.ofNat k) = some n ↔ IsDigit (Utf8.charOf (UInt8.ofNat k)) n := by
    decide +kernel
  constructor
  · intro h
    obtain ⟨ho, hn⟩ := digit?_lt h
    have heq := hall octet.toNat ho n hn
    rw [UInt8.ofNat_toNat] at heq
    exact ⟨ho, heq.mp h⟩
  · rintro ⟨ho, h⟩
    have heq := hall octet.toNat ho n h.lt_sixteen
    rw [UInt8.ofNat_toNat] at heq
    exact heq.mpr h

theorem Leads.lt {c : Char} {n : Nat} (h : Leads c n) : c.toNat < 128 := by
  rcases h with h | ⟨rfl, -⟩
  · exact h.lt
  · decide

theorem Leads.ne_plus {c : Char} {n : Nat} (h : Leads c n) (hc : c ≠ '+') : IsDigit c n :=
  h.resolve_right fun h => hc h.1

theorem not_isDigit_plus (n : Nat) : ¬ IsDigit '+' n := by
  intro h
  have hall : ∀ n < 16, ¬ IsDigit '+' n := by decide
  exact hall n h.lt_sixteen h

namespace Spells

variable {leads leads' : Char → Nat → Prop} {cs : List Char} {data : Octets}

theorem length_even (h : Spells leads cs data) : cs.length % 2 = 0 := by
  induction h with
  | nil => rfl
  | octet ha hb h ih =>
    rw [List.length_cons, List.length_cons]
    omega

theorem mono (hleads : ∀ c ∈ cs, ∀ n, leads c n → leads' c n) (h : Spells leads cs data) :
    Spells leads' cs data := by
  induction h with
  | nil => exact .nil
  | octet ha hb h ih =>
    refine .octet (hleads _ List.mem_cons_self _ ha) hb (ih fun c hc => hleads c ?_)
    exact List.mem_cons_of_mem _ (List.mem_cons_of_mem _ hc)

theorem forall_mem {P : Char → Prop} (hleads : ∀ c n, leads c n → P c)
    (hdigit : ∀ c n, IsDigit c n → P c) (h : Spells leads cs data) : ∀ c ∈ cs, P c := by
  induction h with
  | nil => exact nofun
  | octet ha hb h ih =>
    exact List.forall_mem_cons.mpr ⟨hleads _ _ ha, List.forall_mem_cons.mpr ⟨hdigit _ _ hb, ih⟩⟩

theorem isDigit_of_mem (h : Spells IsDigit cs data) : ∀ c ∈ cs, ∃ n, IsDigit c n :=
  h.forall_mem (fun _ n h => ⟨n, h⟩) fun _ n h => ⟨n, h⟩

theorem lt_of_mem (h : Spells Leads cs data) : ∀ c ∈ cs, c.toNat < 128 :=
  h.forall_mem (fun _ _ h => h.lt) fun _ _ h => h.lt

/-- Digits spell octets if their number is even. -/
theorem exists_of_isDigit : ∀ {cs : List Char}, cs.length % 2 = 0 → (∀ c ∈ cs, ∃ n, IsDigit c n) →
    ∃ data, Spells IsDigit cs data
  | [], _, _ => ⟨[], .nil⟩
  | [_], heven, _ => absurd heven (by rw [List.length_singleton]; decide)
  | a :: b :: cs, heven, hdigits => by
    obtain ⟨high, ha⟩ := hdigits a List.mem_cons_self
    obtain ⟨low, hb⟩ := hdigits b (List.mem_cons_of_mem _ List.mem_cons_self)
    have hlength : cs.length % 2 = 0 := by
      rw [List.length_cons, List.length_cons] at heven
      omega
    obtain ⟨data, h⟩ := exists_of_isDigit hlength fun c hc =>
      hdigits c (List.mem_cons_of_mem _ (List.mem_cons_of_mem _ hc))
    exact ⟨_, .octet ha hb h⟩

theorem iff_leads_of_plus : Spells IsDigit cs data ↔ Spells Leads cs data ∧ '+' ∉ cs := by
  constructor
  · intro h
    refine ⟨h.mono fun _ _ _ => .inl, fun hplus => ?_⟩
    obtain ⟨n, hn⟩ := h.isDigit_of_mem '+' hplus
    exact not_isDigit_plus n hn
  · rintro ⟨h, hplus⟩
    exact h.mono fun c hc n hn => hn.ne_plus fun heq => hplus (heq ▸ hc)

end Spells

/-! ## Reading -/

theorem lead_eq_some {octet : UInt8} {n : Nat} :
    (if octet = 43 then some 0 else digit? octet) = some n ↔
      octet.toNat < 128 ∧ Leads (Utf8.charOf octet) n := by
  by_cases h : octet = 43
  · subst h
    have hplus : Utf8.charOf 43 = '+' := rfl
    rw [if_pos rfl, Option.some.injEq, hplus, Leads]
    constructor
    · rintro rfl
      exact ⟨by decide, .inr ⟨rfl, rfl⟩⟩
    · rintro ⟨-, hdigit | ⟨-, rfl⟩⟩
      · exact absurd hdigit (not_isDigit_plus n)
      · rfl
  · rw [if_neg h, digit?_eq_some]
    refine and_congr_right fun ho => ⟨.inl, fun hleads => hleads.ne_plus fun hplus => h ?_⟩
    have hall : ∀ k < 128, Utf8.charOf (UInt8.ofNat k) = '+' → k = 43 := by decide
    have hoctet := hall octet.toNat ho
    rw [UInt8.ofNat_toNat] at hoctet
    exact UInt8.toNat_inj.mp (hoctet hplus)

theorem pair?_eq_some {a b octet : UInt8} :
    pair? a b = some octet ↔
      ∃ high low, (a.toNat < 128 ∧ Leads (Utf8.charOf a) high) ∧
        (b.toNat < 128 ∧ IsDigit (Utf8.charOf b) low) ∧ UInt8.ofNat (16 * high + low) = octet := by
  simp only [← lead_eq_some, ← digit?_eq_some]
  unfold pair?
  split
  · next high low ha hb => simp [ha, hb]
  · next hnone =>
    simp only [reduceCtorEq, false_iff]
    rintro ⟨high, low, ha, hb, -⟩
    exact hnone high low ha hb

theorem decodePair_eq_ok {a b octet : UInt8} :
    decodePair a b = .ok octet ↔ pair? a b = some octet := by
  constructor
  · intro h
    unfold decodePair at h
    split at h
    · cases h
    · split at h
      · next hpair =>
        cases h
        exact hpair
      · cases h
  · intro h
    obtain ⟨high, low, ⟨ha, -⟩, ⟨hb, -⟩, -⟩ := pair?_eq_some.mp h
    have hwhole : Utf8.fault? 0 none [a, b] = none := by
      simp [Utf8.fault?, ha, hb]
    simp [decodePair, Utf8.decode, hwhole, h]

theorem decodePairs_cons_eq_ok {a b : UInt8} {octets data : Octets} :
    decodePairs (a :: b :: octets) = .ok data ↔
      ∃ octet rest, pair? a b = some octet ∧ decodePairs octets = .ok rest ∧ octet :: rest = data := by
  simp only [← decodePair_eq_ok, decodePairs, bind, Except.bind]
  cases decodePair a b with
  | error error => simp
  | ok octet =>
    cases decodePairs octets with
    | error error => simp
    | ok rest => simp [pure, Except.pure]

/-- Octets are read if they are ASCII and spell what is read. -/
theorem decodePairs_eq_ok : ∀ {octets data : Octets}, octets.length % 2 = 0 →
    (decodePairs octets = .ok data ↔
      (∀ octet ∈ octets, octet.toNat < 128) ∧ Spells Leads (octets.map Utf8.charOf) data)
  | [], data, _ => by
    constructor
    · intro h
      cases h
      exact ⟨nofun, .nil⟩
    · rintro ⟨-, h⟩
      cases h
      rfl
  | [_], _, heven => absurd heven (by rw [List.length_singleton]; decide)
  | a :: b :: octets, data, heven => by
    have hlength : octets.length % 2 = 0 := by
      rw [List.length_cons, List.length_cons] at heven
      omega
    rw [decodePairs_cons_eq_ok, List.forall_mem_cons, List.forall_mem_cons, List.map_cons, List.map_cons]
    constructor
    · rintro ⟨octet, rest, hpair, hrest, rfl⟩
      obtain ⟨high, low, ⟨ha, hhigh⟩, ⟨hb, hlow⟩, rfl⟩ := pair?_eq_some.mp hpair
      obtain ⟨hall, hspells⟩ := (decodePairs_eq_ok hlength).mp hrest
      exact ⟨⟨ha, hb, hall⟩, .octet hhigh hlow hspells⟩
    · rintro ⟨⟨ha, hb, hall⟩, h⟩
      cases h with
      | octet hhigh hlow hspells =>
        have hpair := pair?_eq_some.mpr ⟨_, _, ⟨ha, hhigh⟩, ⟨hb, hlow⟩, rfl⟩
        exact ⟨_, _, hpair, (decodePairs_eq_ok hlength).mpr ⟨hall, hspells⟩, rfl⟩

/-- A text is read if its characters but the separators spell what is read. -/
theorem decode_eq_ok {text : String} {data : Octets} :
    decode text = .ok data ↔ Spells Leads (unseparated text) data := by
  unfold decode
  rw [Utf8.toList_toUTF8, filter_flatMap, ← unseparated]
  generalize unseparated text = cs
  simp only
  -- the number of octets is that of characters only where these are ASCII, which both sides say
  by_cases heven : (cs.flatMap String.utf8EncodeChar).length % 2 = 0
  · rw [if_neg (by omega), decodePairs_eq_ok heven]
    constructor
    · rintro ⟨hall, h⟩
      rwa [Utf8.map_charOf hall] at h
    · intro h
      have hall := Utf8.lt_of_mem_flatMap h.lt_of_mem
      rw [Utf8.map_charOf hall]
      exact ⟨hall, h⟩
  · rw [if_pos (by omega)]
    simp only [reduceCtorEq, false_iff]
    intro h
    rw [Utf8.flatMap_of_lt h.lt_of_mem, List.length_map] at heven
    exact heven h.length_even

theorem mem_unseparated {c : Char} (hc : ¬ IsSeparator c) {text : String} :
    c ∈ unseparated text ↔ c ∈ text.toList := by
  simp [unseparated, hc]

theorem spells_iff_of_plus {text : String} {data : Octets} :
    Spells IsDigit (unseparated text) data ↔ decode text = .ok data ∧ '+' ∉ text.toList := by
  rw [Spells.iff_leads_of_plus, decode_eq_ok, mem_unseparated (by decide)]

/-- What is read is hexadecimal, an even number of digits apart from separators, but for plus signs: these are
read where a first digit may stand, as zero. Nothing else comes to octets. -/
theorem decode_accepts (text : String) :
    (∀ data, decode text = .ok data ↔ Spells Leads (unseparated text) data) ∧
    (∀ data, decode text = .ok data ∧ '+' ∉ text.toList ↔ Spells IsDigit (unseparated text) data) ∧
    ((∃ data, decode text = .ok data ∧ '+' ∉ text.toList) ↔
      (unseparated text).length % 2 = 0 ∧ ∀ c ∈ unseparated text, ∃ n, IsDigit c n) ∧
    ((∃ error, decode text = .error error) ↔ ¬ ∃ data, Spells Leads (unseparated text) data) := by
  refine ⟨fun data => decode_eq_ok, fun data => spells_iff_of_plus.symm, ?_, ?_⟩
  · simp only [← spells_iff_of_plus]
    constructor
    · rintro ⟨data, h⟩
      exact ⟨h.length_even, h.isDigit_of_mem⟩
    · rintro ⟨heven, hdigits⟩
      exact Spells.exists_of_isDigit heven hdigits
  · simp only [← decode_eq_ok]
    cases decode text with
    | error error => simp
    | ok data => simp

/-- A plus sign is no digit, and is read. -/
theorem not_hexadecimal_of_plus :
    ¬ ∀ text data, decode text = .ok data ↔ Spells IsDigit (unseparated text) data := by
  intro h
  have hread : decode "+5" = .ok [5] := by
    have hplus : Leads '+' 0 := .inr ⟨rfl, rfl⟩
    have hdigit : IsDigit '5' 5 := by decide
    exact decode_eq_ok.mpr (.octet hplus hdigit .nil)
  obtain ⟨n, hn⟩ := ((h "+5" [5]).mp hread).isDigit_of_mem '+' (by decide)
  exact not_isDigit_plus n hn

/-! ## Reading what is shown -/

/-- The characters are written otherwise: any letters upper-case, and separators put in anywhere. -/
inductive Respelled : List Char → List Char → Prop
  | nil : Respelled [] []
  | same (c : Char) {cs ds : List Char} (h : Respelled cs ds) : Respelled (c :: cs) (c :: ds)
  | upper (c : Char) {cs ds : List Char} (h : Respelled cs ds) : Respelled (c :: cs) (c.toUpper :: ds)
  | separator {s : Char} (hs : IsSeparator s) {cs ds : List Char} (h : Respelled cs ds) :
    Respelled cs (s :: ds)

/-- The second character is a digit of the same value, if the first one is a digit. -/
def Alike (c d : Char) : Prop :=
  ∀ n, IsDigit c n → IsDigit d n

theorem IsDigit.toUpper {c : Char} {n : Nat} (h : IsDigit c n) : IsDigit c.toUpper n := by
  refine of_forall (P := fun c n => IsDigit c.toUpper n) ?_ h
  decide +kernel

theorem IsDigit.not_isSeparator {c : Char} {n : Nat} (h : IsDigit c n) : ¬ IsSeparator c := by
  refine of_forall (P := fun c _ => ¬ IsSeparator c) ?_ h
  decide +kernel

theorem Respelled.forall₂_alike {cs ds : List Char} (h : Respelled cs ds)
    (hdigits : ∀ c ∈ cs, ∃ n, IsDigit c n) : List.Forall₂ Alike cs (ds.filter (¬ IsSeparator ·)) := by
  induction h with
  | nil => exact .nil
  | same c h ih =>
    obtain ⟨⟨n, hc⟩, hmore⟩ := List.forall_mem_cons.mp hdigits
    rw [List.filter_cons, if_pos (by simpa using hc.not_isSeparator)]
    exact .cons (fun _ => id) (ih hmore)
  | upper c h ih =>
    obtain ⟨⟨n, hc⟩, hmore⟩ := List.forall_mem_cons.mp hdigits
    rw [List.filter_cons, if_pos (by simpa using hc.toUpper.not_isSeparator)]
    exact .cons (fun _ => IsDigit.toUpper) (ih hmore)
  | separator hs h ih =>
    rw [List.filter_cons, if_neg (by simpa using hs)]
    exact ih hdigits

theorem Spells.of_alike {cs ds : List Char} {data : Octets} (h : Spells IsDigit cs data)
    (halike : List.Forall₂ Alike cs ds) : Spells IsDigit ds data := by
  induction h generalizing ds with
  | nil =>
    cases halike
    exact .nil
  | octet ha hb h ih =>
    cases halike with
    | cons hfirst halike =>
      cases halike with
      | cons hsecond halike => exact .octet (hfirst _ ha) (hsecond _ hb) (ih halike)

/-- What is written for octets spells them. -/
theorem spells_encode (data : Octets) : Spells IsDigit (encode data).toList data := by
  have hdigit : ∀ n < 16, IsDigit (digits.getD n '0') n := by decide
  rw [encode, String.toList_ofList]
  induction data with
  | nil => exact .nil
  | cons octet data ih =>
    have hlt := octet.toNat_lt
    have hspells := Spells.octet (hdigit (octet.toNat / 16) (by omega))
      (hdigit (octet.toNat % 16) (by omega)) ih
    rwa [show 16 * (octet.toNat / 16) + octet.toNat % 16 = octet.toNat by omega,
      UInt8.ofNat_toNat] at hspells

theorem decode_of_respelled {data : Octets} {text : String}
    (h : Respelled (encode data).toList text.toList) : decode text = .ok data := by
  have hshown := spells_encode data
  have hspells : Spells IsDigit (unseparated text) data :=
    hshown.of_alike (h.forall₂_alike hshown.isDigit_of_mem)
  exact (spells_iff_of_plus.mp hspells).1

theorem Respelled.refl : ∀ cs : List Char, Respelled cs cs
  | [] => .nil
  | c :: cs => .same c (refl cs)

/-- The text shown for octets is read as these however it is spaced and in either case, and so tells them from
all others. -/
theorem decode_respelled (data : Octets) :
    (∀ text : String, Respelled (Value.octets data).render.toList text.toList →
      decode text = .ok data) ∧
    ∀ other : Octets, (Value.octets other).render = (Value.octets data).render → other = data := by
  refine ⟨fun text => decode_of_respelled, fun other heq => ?_⟩
  have hother : decode (encode other) = .ok other := decode_of_respelled (.refl _)
  have hdata : decode (encode data) = .ok data := decode_of_respelled (.refl _)
  have hsame : encode other = encode data := heq
  rw [hsame, hdata] at hother
  exact (Except.ok.inj hother).symm

theorem decode_respelled_sample :
    Respelled (Value.octets [0xca, 0xfe]).render.toList " C:a\nfE".toList ∧
      decode " C:a\nfE" = .ok [0xca, 0xfe] := by
  have h : Respelled (Value.octets [0xca, 0xfe]).render.toList " C:a\nfE".toList :=
    .separator (by decide) (.upper 'c' (.separator (by decide) (.same 'a'
      (.separator (by decide) (.same 'f' (.upper 'e' .nil))))))
  exact ⟨h, (decode_respelled [0xca, 0xfe]).1 _ h⟩

end V2x.Text.Hex
