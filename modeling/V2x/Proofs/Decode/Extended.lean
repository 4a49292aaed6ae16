import V2x.Proofs.Decode.Basic
import V2x.Proofs.Machine.Reader
import V2x.Proofs.Per.Reading

/-!
# Beyond the root of a type

What a later version of a grammar adds stands behind an extension bit: a number out of its range as counted
octets, an index past those of the root, components as open types. Wherever in an octet it begins, in whichever
form its lengths are told and whatever comes after it, it is read as just what has been added
(`settles_extended`, `settles_addition`, `settles_additions`), in words as well as on unbounded numbers.
-/

namespace V2x

open Per (Read Reader)
open Per.Encoding (Enclosed TellsLength TellsSmall flag number)

theorem Per.Reader.inside_of_rest {r : Reader} {bits tail : List Bool} (hne : bits ≠ [])
    (hr : r.rest = bits ++ tail) : r.Inside := by
  have hpos := List.length_pos_iff.mpr hne
  have hlength := congrArg List.length hr
  rw [Reader.length_rest, List.length_append] at hlength
  unfold Reader.Inside
  unfold Reader.remaining at hlength
  omega

namespace Machine

variable {α : Type} {read : Read α} {words : Reading α} {bits : List Bool}

/-- From any reader that has `bits` next, the read takes just these and comes to `outcome`, in words as on
unbounded numbers. -/
def Settles (read : Read α) (words : Reading α) (bits : List Bool) (outcome : Except Fault α) : Prop :=
  ∀ (r : Reader) (tail : List Bool), r.rest = bits ++ tail →
    read r = .of outcome (r.advance bits.length) ∧
      words r = untrapped (.of outcome (r.advance bits.length))

theorem settles_of_read {outcome : Except Fault α}
    (h : ∀ r tail, r.rest = bits ++ tail → read r = .of outcome (r.advance bits.length))
    (hwords : ∀ r tail, r.rest = bits ++ tail → words r = untrapped (read r)) :
    Settles read words bits outcome := by
  intro r tail hr
  have hread := h r tail hr
  exact ⟨hread, (hwords r tail hr).trans (congrArg untrapped hread)⟩

theorem Follows.untrapped (h : Follows Eq words read) (hne : bits ≠ []) (r : Reader) (tail : List Bool)
    (hr : r.rest = bits ++ tail) : words r = Machine.untrapped (read r) :=
  h.eq_untrapped (Reader.inside_of_rest hne hr)

/-! ## Numbers out of their range -/

/-- Behind the extension bit the bounds do not matter, not even whether they leave room in a word. -/
theorem extensibleInteger_untrapped (field : String) (lower upper : Int) (r : Reader) (tail : List Bool)
    (hr : r.rest = flag true ++ bits ++ tail) :
    Reading.extensibleInteger field lower upper r =
      untrapped (Read.extensibleInteger field lower upper r) := by
  have hinside := Reader.inside_of_rest (List.cons_ne_nil true bits) hr
  have hflag := Read.finds_flag true r (bits ++ tail) hr
  have hwords : Reading.flag r = .ok true (r.advance 1) := by
    rw [Reading.follows_flag.eq_untrapped hinside, hflag]
    rfl
  have hfollows : Follows Eq (Reading.extensibleInteger field 0 0) (Read.extensibleInteger field 0 0) :=
    Reading.follows_extensibleInteger (by decide)
  have hroom := hfollows.eq_untrapped hinside
  unfold Reading.extensibleInteger Read.extensibleInteger at hroom ⊢
  rw [EStateM.bind_of_ok hwords, EStateM.bind_of_ok hflag] at hroom ⊢
  simp only [if_true] at hroom ⊢
  exact hroom

/-- A number in two's complement on one to eight octets is read as that number, whatever the bounds are that it
may lie out of. Another count of octets is refused before any of them is read. -/
theorem settles_extended (field : String) (lower upper : Int) :
    (∀ (value : Int) (count : Nat) (length : List Bool), 1 ≤ count → count ≤ 8 →
      -2 ^ (8 * count - 1) ≤ value → value < 2 ^ (8 * count - 1) → TellsLength length count →
      Settles (Read.extensibleInteger field lower upper) (Reading.extensibleInteger field lower upper)
        (flag true ++ (length ++ number (8 * count) (value % 2 ^ (8 * count)).toNat)) (.ok value)) ∧
    ∀ (count : Nat) (length : List Bool), count = 0 ∨ 8 < count → TellsLength length count →
      Settles (Read.extensibleInteger field lower upper) (Reading.extensibleInteger field lower upper)
        (flag true ++ length) (.error (.outOfRange field count)) := by
  constructor
  · intro value count length h1 h8 hlower hupper hlength
    apply settles_of_read
    · exact Read.finds_extensibleInteger_of_tells field hlength h1 h8 ⟨hlower, hupper⟩
    · exact extensibleInteger_untrapped field lower upper
  · intro count length hcount hlength
    apply settles_of_read
    · exact Read.refuses_extensibleInteger field hlength hcount
    · exact extensibleInteger_untrapped field lower upper

theorem settles_extended_delta :
    let r : Reader := ⟨#[0x18, 0x00, 0x1f, 0xef], 3⟩
    let t : Reader := ⟨#[0x10, 0x9f], 3⟩
    Read.extensibleInteger "pathDeltaTime" 1 65535 r = .ok (-2) (r.advance 25) ∧
      Reading.extensibleInteger "pathDeltaTime" 1 65535 r = .ok (-2) (r.advance 25) ∧
      Read.extensibleInteger "pathDeltaTime" 1 65535 t =
        .error (.outOfRange "pathDeltaTime" 9) (t.advance 9) := by
  intro r t
  obtain ⟨hinside, houtside⟩ := settles_extended "pathDeltaTime" 1 65535
  have hr := hinside (-2) 1 _ (by decide) (by decide) (by decide) (by decide) (.two (by decide)) r
    [true, true, true, true] (by decide)
  have ht := houtside 9 _ (by decide) (.one (by decide)) t [true, true, true, true] (by decide)
  exact ⟨hr.1, hr.2, ht.1⟩

/-! ## Indices past the root -/

theorem index_untrapped {roots : Nat} (h : roots < 2 ^ 32) (r : Reader) (tail : List Bool)
    (hr : r.rest = flag true ++ bits ++ tail) :
    Reading.index roots true r = untrapped (Read.index roots true r) := by
  have hfollows : Follows Eq (Reading.index roots true) (Read.index roots true) :=
    (Reading.follows_index h).mono (fun _ h => h) fun _ _ h => h.1
  exact hfollows.untrapped (List.cons_ne_nil true bits) r tail hr

end Machine

namespace Dissect

variable {name : String} {labels : List String} {extensible : Bool} {r r' : Reader}

theorem enumerated_of_index {n : Nat} (h : Read.index labels.length extensible r = .ok n r') (s : Scene) :
    enumerated name labels extensible ⟨r, s⟩ =
      .ok n ⟨r', s.emit (Node.leaf name (.enumerated n labels[n]?))⟩ := by
  have hread : read (.index labels.length extensible) ⟨r, s⟩ = .ok n ⟨r', s⟩ := by
    rw [read_eq, h]
    rfl
  unfold enumerated
  rw [EStateM.bind_of_ok hread]
  rfl

theorem enumerated_of_fault {fault : Fault}
    (h : Read.index labels.length extensible r = .error fault r') (s : Scene) :
    enumerated name labels extensible ⟨r, s⟩ = .error fault ⟨r', s⟩ := by
  have hread : read (.index labels.length extensible) ⟨r, s⟩ = .error fault ⟨r', s⟩ := by
    rw [read_eq, h]
    rfl
  unfold enumerated
  rw [EStateM.bind_of_error hread]

end Dissect

namespace Machine

/-- An added enumeration value counts on from the root ones, and is shown without the label of any of them. One
whose index would leave the words is refused, and nothing is shown. -/
theorem settles_addition {labels : List String} (hroots : labels.length < 2 ^ 32) {n : Nat}
    {small : List Bool} (hsmall : TellsSmall small n) (name : String) :
    (labels.length + n < 2 ^ 64 →
      Settles (Read.index labels.length true) (Reading.index labels.length true) (flag true ++ small)
        (.ok (labels.length + n)) ∧
      ∀ (r : Reader) (tail : List Bool) (s : Scene), r.rest = flag true ++ small ++ tail →
        Dissect.enumerated name labels true ⟨r, s⟩ =
          .ok (labels.length + n) ⟨r.advance (1 + small.length),
            s.emit (Node.leaf name (.enumerated (labels.length + n) none))⟩) ∧
    (2 ^ 64 ≤ labels.length + n →
      Settles (Read.index labels.length true) (Reading.index labels.length true) (flag true ++ small)
        (.error (.outOfRange "enumerated extension" (Read.saturated n))) ∧
      ∀ (r : Reader) (tail : List Bool) (s : Scene), r.rest = flag true ++ small ++ tail →
        Dissect.enumerated name labels true ⟨r, s⟩ =
          .error (.outOfRange "enumerated extension" (Read.saturated n))
            ⟨r.advance (1 + small.length), s⟩) := by
  have hfinds := Read.finds_normallySmall_of_tells hsmall
  have hlength : (flag true ++ small).length = 1 + small.length := Nat.add_comm _ _
  constructor
  · intro hlt
    have hindex := Read.finds_index_addition hfinds hlt
    refine ⟨settles_of_read hindex (index_untrapped hroots), fun r tail s hr => ?_⟩
    have hlabel : labels[labels.length + n]? = none := List.getElem?_eq_none (Nat.le_add_right _ _)
    rw [Dissect.enumerated_of_index (hindex r tail hr) s, hlabel, hlength]
  · intro hle
    have hindex := Read.refuses_index_addition hfinds hle
    refine ⟨settles_of_read hindex (index_untrapped hroots), fun r tail s hr => ?_⟩
    rw [Dissect.enumerated_of_fault (hindex r tail hr) s, hlength]

theorem settles_addition_emission :
    let labels := ["euro1", "euro2", "euro3", "euro4", "euro5", "euro6"]
    let r : Reader := ⟨#[0x18, 0x10, 0x00, 0x3f], 3⟩
    let t : Reader := ⟨#[0x18, 0x47, 0xff, 0xff, 0xff, 0xff, 0xff, 0xff, 0xff, 0xff], 3⟩
    let s : Scene := { tree := Node.leaf "RequestorDescription" .none }
    Dissect.enumerated "emission" labels true ⟨r, s⟩ =
        .ok 13 ⟨r.advance 26, s.emit (Node.leaf "emission" (.enumerated 13 none))⟩ ∧
      Dissect.enumerated "emission" labels true ⟨t, s⟩ =
        .error (.outOfRange "enumerated extension" (2 ^ 63 - 1)) ⟨t.advance 74, s⟩ := by
  intro labels r t s
  have hlabels : labels.length < 2 ^ 32 := by decide
  have hcount : ∀ {n : Nat}, n < 128 → TellsLength (flag false ++ number 7 n) n := .one
  have hr := settles_addition hlabels (.counted (n := 7) (hcount (n := 2) (by decide)) (by decide)
    (by decide)) "emission"
  have ht := settles_addition hlabels (.counted (n := 2 ^ 64 - 1) (hcount (n := 8) (by decide)) (by decide)
    (by decide)) "emission"
  exact ⟨(hr.1 (by decide)).2 r [true, true, true] s (by decide),
    (ht.2 (by decide)).2 t [true, true, true] s (by decide)⟩

/-! ## Components -/

/-- The added components of a sequence are read as the octets of those that are there, one after another. More than
a bitmap has place for are refused before the bitmap is read. -/
theorem settles_additions :
    (∀ (data : List (Option Enclosed)) (small : List Bool), 1 ≤ data.length → data.length ≤ 64 →
      TellsSmall small (data.length - 1) →
      Settles Read.additions Reading.additions
        (small ++ (data.map Option.isSome ++ (data.filterMap id).flatMap Enclosed.bits))
        (.ok ((data.filterMap id).map Enclosed.data))) ∧
    ∀ (last : Nat) (small : List Bool), 64 ≤ last → TellsSmall small last →
      Settles Read.additions Reading.additions small
        (.error (.outOfRange "extension additions" (Read.saturated last))) := by
  constructor
  · intro data small h1 h64 hsmall
    have hne := List.append_ne_nil_of_left_ne_nil hsmall.ne_nil
      (data.map Option.isSome ++ (data.filterMap id).flatMap Enclosed.bits)
    apply settles_of_read
    · exact Read.finds_additions_of_tells h1 h64 hsmall
    · exact Reading.follows_additions.untrapped hne
  · intro last small h64 hsmall
    apply settles_of_read
    · exact Read.refuses_additions hsmall h64
    · exact Reading.follows_additions.untrapped hsmall.ne_nil

theorem settles_additions_three :
    let r : Reader := ⟨#[0x10, 0x10, 0x2b, 0x00, 0x03, 0x56, 0x01], 3⟩
    let t : Reader := ⟨#[0x10, 0x14, 0x0f], 3⟩
    Read.additions r = .ok [[0xab], []] (r.advance 52) ∧
      Reading.additions r = .ok [[0xab], []] (r.advance 52) ∧
      Read.additions t = .error (.outOfRange "extension additions" 64) (t.advance 17) := by
  intro r t
  obtain ⟨hfew, hmany⟩ := settles_additions
  let first : Enclosed := ⟨[0xab], _, .two (by decide)⟩
  let last : Enclosed := ⟨[], _, .one (by decide)⟩
  have hone : TellsLength (flag false ++ number 7 1) 1 := .one (by decide)
  have hr := hfew [some first, none, some last] _ (by decide) (by decide)
    (.counted hone (by decide) (by decide)) r [true] (by decide)
  have ht := hmany 64 _ (by decide) (.counted hone (by decide) (by decide)) t
    [true, true, true, true] (by decide)
  exact ⟨hr.1, hr.2, ht.1⟩

end Machine

end V2x
