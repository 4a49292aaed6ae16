import V2x.Proofs.Decode.Basic
import V2x.Proofs.Per.Spare
import V2x.Schema.Frames

/-!
# Fields with codes to spare

What a spare code is taken for: in a number for one outside its bounds (`spareOutside`), in an enumeration
or a choice for an addition, although no extension bit is set (`spareAddition`).
-/

namespace V2x

open Per (Reader Read)

variable {resolve : Resolver} {name : String} {s s' : Dissect.State}

/-! ## Numbers -/

theorem Field.integer_ok {lower upper : Int}
    (h : (Field.integer name lower upper).decode resolve s = .ok () s') :
    ∃ v, Read.constrained lower upper s.reader = .ok v s'.reader ∧
      s'.scene =
        s.scene.emit (Node.leaf name (if lower < 0 then .signed v else .unsigned v.toNat)) := by
  obtain ⟨v, t, hread, hemit⟩ := EStateM.exists_of_bind_ok h
  obtain ⟨hv, hscene⟩ := Dissect.read_ok hread
  cases hemit
  exact ⟨v, hv, by rw [hscene]⟩

/-- What is read with these bounds, and shown by a field that has them, is outside them just where a spare
code comes next. -/
structure SpareOutside (lower upper : Int) : Prop where
  constrained : ∀ {r r' : Reader} {v : Int}, Read.constrained lower upper r = .ok v r' →
    (lower ≤ v ∧ v ≤ upper ↔ ¬ r.Spare (upper - lower + 1).toNat)
  size : ∀ {m n : Nat}, lower = m → upper = n →
    ∀ {r r' : Reader} {count : Nat}, Read.size m n r = .ok count r' →
      (m ≤ count ∧ count ≤ n ↔ ¬ r.Spare (upper - lower + 1).toNat)
  extensible : ∀ {field : String} {r r' : Reader} {v : Int}, r.rest.head? = some false →
    Read.extensibleInteger field lower upper r = .ok v r' →
      (lower ≤ v ∧ v ≤ upper ↔ ¬ (r.advance 1).Spare (upper - lower + 1).toNat)
  shown : ∀ {resolve : Resolver} {name : String} {s s' : Dissect.State},
    (Field.integer name lower upper).decode resolve s = .ok () s' →
      ∃ v : Int, s'.scene =
          s.scene.emit (Node.leaf name (if lower < 0 then .signed v else .unsigned v.toNat)) ∧
        (lower ≤ v ∧ v ≤ upper ↔ ¬ s.reader.Spare (upper - lower + 1).toNat)
  /-- A spare code is no fault; only bits that are missing are one. -/
  returned : ∀ {r : Reader}, Bits.width (upper - lower + 1).toNat ≤ r.remaining →
    ∃ v, Read.constrained lower upper r =
      .ok v (r.advance (Bits.width (upper - lower + 1).toNat))
  /-- Nothing outside is ever read only where there is no code to spare. -/
  never : (∀ r v r', Read.constrained lower upper r = .ok v r' → lower ≤ v ∧ v ≤ upper) ↔
    ∃ k, (upper - lower + 1).toNat = 2 ^ k

theorem spareOutside {lower upper : Int} (hb : Read.Bounds lower upper) (hle : lower ≤ upper) :
    SpareOutside lower upper where
  constrained := Read.constrained_ok hb hle
  size := by
    rintro m n rfl rfl
    exact Read.size_ok hb (Int.ofNat_le.mp hle)
  extensible := Read.extensibleInteger_ok hb hle
  shown := by
    intro resolve name s s' h
    obtain ⟨v, hread, hscene⟩ := Field.integer_ok h
    exact ⟨v, hscene, Read.constrained_ok hb hle hread⟩
  returned := Read.constrained_of_le hb hle
  never := Read.constrained_within_iff hb hle

/-- An altitude above the highest one. -/
theorem spareOutside_altitude :
    Read.Bounds (-100000) 800001 ∧ (-100000 : Int) ≤ 800001 ∧
      ∃ v r', Read.constrained (-100000) 800001 (.ofOctets [0xff, 0xff, 0xff]) = .ok v r' ∧
        ¬ (-100000 ≤ v ∧ v ≤ 800001) := by
  have hb : Read.Bounds (-100000) 800001 := by decide
  have hoffset : Read.number (Bits.widthBetween (-100000) 800001) (.ofOctets [0xff, 0xff, 0xff]) =
      .ok 1048575 ((Reader.ofOctets [0xff, 0xff, 0xff]).advance 20) := by rfl
  have hread : Read.constrained (-100000) 800001 (.ofOctets [0xff, 0xff, 0xff]) =
      .ok 948575 ((Reader.ofOctets [0xff, 0xff, 0xff]).advance 20) := EStateM.bind_of_ok hoffset _
  have hspare : (Reader.ofOctets [0xff, 0xff, 0xff]).Spare 900002 := by decide +kernel
  have h := (spareOutside hb (by decide)).constrained hread
  exact ⟨hb, by decide, _, _, hread, fun hwithin => h.mp hwithin hspare⟩

/-- All ones on two bits are read as three, although two is the upper bound. -/
theorem not_within_bounds :
    ¬ ∀ (lower upper v : Int) (r r' : Reader), Read.Bounds lower upper → lower ≤ upper →
      Read.constrained lower upper r = .ok v r' → lower ≤ v ∧ v ≤ upper := by
  intro h
  have hoffset : Read.number (Bits.widthBetween 0 2) (.ofOctets [0xc0]) =
      .ok 3 ((Reader.ofOctets [0xc0]).advance 2) := by rfl
  have hread : Read.constrained 0 2 (.ofOctets [0xc0]) =
      .ok 3 ((Reader.ofOctets [0xc0]).advance 2) := EStateM.bind_of_ok hoffset _
  exact absurd (h 0 2 3 _ _ (by decide) (by decide) hread).2 (by decide)

/-! ## Enumerations and choices -/

theorem Field.enumerated_ok {labels : List String} {extensible : Bool}
    (h : (Field.enumerated name labels extensible).decode resolve s = .ok () s') :
    ∃ v, Read.index labels.length extensible s.reader = .ok v s'.reader ∧
      s'.scene = s.scene.emit (Node.leaf name (.enumerated v labels[v]?)) := by
  obtain ⟨v, t, hshown, hdone⟩ := EStateM.exists_of_bind_ok h
  cases hdone
  obtain ⟨n, u, hread, hemit⟩ := EStateM.exists_of_bind_ok hshown
  obtain ⟨hn, hscene⟩ := Dissect.read_ok hread
  cases hemit
  exact ⟨v, hn, by rw [← hscene]⟩

/-- Where an index that is read is not below the roots, the choice goes on with what stands for an unknown
alternative. -/
theorem Field.choice_of_le {type : String} {extensible : Bool} {a : Alternatives}
    (h : ∀ {v r'}, Read.index a.count extensible s.reader = .ok v r' → a.count ≤ v) :
    (Field.choice name type extensible a).decode resolve s =
      Dissect.under name (do
        let index ← Dissect.read (.index a.count extensible)
        Alternatives.unknown type extensible index) s := by
  unfold Field.decode Dissect.under
  congr 1
  cases hread : Dissect.read (.index a.count extensible) { s with scene := s.scene.descend name } with
  | error fault t => rw [EStateM.bind_of_error hread, EStateM.bind_of_error hread]
  | ok v t =>
    rw [EStateM.bind_of_ok hread, EStateM.bind_of_ok hread,
      Alternatives.decode_of_le type extensible v a (h (Dissect.read_ok hread).1)]

/-- What is read as an index of these roots counts as an addition where the extension bit is set, and just as
well where a spare code comes next. -/
structure SpareAddition (roots : Nat) (extensible : Bool) : Prop where
  index : ∀ {r r' : Reader} {v : Nat}, Read.index roots extensible r = .ok v r' →
    (v < roots ↔ ¬ (r.Extended extensible ∨ (r.advance extensible.toNat).Spare roots))
  enumerated : ∀ {labels : List String}, labels.length = roots →
    ∀ {resolve : Resolver} {name : String} {s s' : Dissect.State},
      (Field.enumerated name labels extensible).decode resolve s = .ok () s' →
        ∃ v, s'.scene = s.scene.emit (Node.leaf name (.enumerated v labels[v]?)) ∧
          (labels[v]? = none ↔
            s.reader.Extended extensible ∨ (s.reader.advance extensible.toNat).Spare roots)
  choice : ∀ {a : Alternatives}, a.count = roots →
    ∀ {resolve : Resolver} {name type : String} {s : Dissect.State},
      s.reader.Extended extensible ∨ (s.reader.advance extensible.toNat).Spare roots →
        (Field.choice name type extensible a).decode resolve s =
          Dissect.under name (do
            let index ← Dissect.read (.index roots extensible)
            Alternatives.unknown type extensible index) s
  returned : ∀ {r : Reader}, ¬ r.Extended extensible →
    extensible.toNat + Bits.width roots ≤ r.remaining →
      ∃ v, Read.index roots extensible r =
        .ok v (r.advance (extensible.toNat + Bits.width roots))
  /-- The extension bit alone tells additions from roots only where there is no code to spare. -/
  told : (∀ r v r', Read.index roots extensible r = .ok v r' →
    (v < roots ↔ ¬ r.Extended extensible)) ↔ ∃ k, roots = 2 ^ k

theorem spareAddition (roots : Nat) (extensible : Bool) : SpareAddition roots extensible where
  index hread := by
    rw [Read.index_ok hread, not_or]
  enumerated := by
    rintro labels rfl resolve name s s' h
    obtain ⟨v, hread, hscene⟩ := Field.enumerated_ok h
    refine ⟨v, hscene, ?_⟩
    have hroot := Read.index_ok hread
    rw [← not_or] at hroot
    rw [List.getElem?_eq_none_iff, ← Nat.not_lt, hroot, Decidable.not_not]
  choice := by
    rintro a rfl resolve name type s hpast
    refine Field.choice_of_le fun hread => Nat.le_of_not_lt fun hlt => ?_
    have hroot := (Read.index_ok hread).mp hlt
    exact hpast.elim hroot.1 hroot.2
  returned := Read.index_of_le
  told := Read.index_lt_iff extensible

/-- The fourth of three alternatives, after a cleared extension bit, is shown as octets. -/
theorem spareAddition_accessPoint :
    ¬ (Reader.ofOctets [0x60, 0x35, 0x60]).Extended true ∧
      (Schema.accessPoint "inBoundLane").decode (fun _ _ s => (0, s))
          ⟨.ofOctets [0x60, 0x35, 0x60], { tree := Node.leaf "request" .none }⟩ =
        .ok () ⟨(Reader.ofOctets [0x60, 0x35, 0x60]).advance 19,
          { tree := (Node.leaf "request" .none).push
              ((Node.leaf "inBoundLane" .none).push (Node.raw [0xab])) }⟩ := by
  refine ⟨by decide, ((spareAddition 3 true).choice rfl (.inr ?_)).trans (by rfl)⟩
  decide

/-- All ones after a cleared extension bit are read as the first addition. -/
theorem not_told_apart :
    ¬ ∀ (roots v : Nat) (extensible : Bool) (r r' : Reader), 1 ≤ roots →
      Read.index roots extensible r = .ok v r' →
        (v < roots ↔ ¬ r.Extended extensible) ∧ (roots ≤ v ↔ r.Extended extensible) := by
  intro h
  have hread : Read.index 3 true (.ofOctets [0x60]) =
      .ok 3 ((Reader.ofOctets [0x60]).advance 3) := by rfl
  have hroot : ¬ (Reader.ofOctets [0x60]).Extended true := by decide
  exact hroot ((h 3 3 true _ _ (by decide) hread).2.mp (Nat.le_refl _))

end V2x
