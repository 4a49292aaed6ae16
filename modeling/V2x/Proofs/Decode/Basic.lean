import V2x.Proofs.Per.View
import V2x.Schema.Decode

/-!
# Reading and resolving as steps of a decoder

A read moves the reader only, and resolving an extension leaves the reader and the active region as
they were. Both are brought here into the form in which later proofs meet them. What a decoder does to its
scene is often a relation between the scenes before and after it, which its parts keep (`Moves`). What a choice
goes on with past its alternatives does not depend on these (`Alternatives.unknown`).
-/

namespace V2x

def Surely.Moves (R : Scene → Scene → Prop) {α : Type} (act : Surely α) : Prop :=
  ∀ s : Scene, R s (act s).2

def Run.Moves (R : Scene → Scene → Prop) {α : Type} (run : Run α) : Prop :=
  ∀ s : Scene, R s (run s).state

namespace Dissect

variable {α β : Type}

theorem read_eq (r : Per.Read α) (s : State) :
    read r s = .of (r s.reader).outcome ⟨(r s.reader).state, s.scene⟩ := by
  unfold read
  cases r s.reader <;> rfl

theorem read_bits_of_le {n : Nat} {r : Per.Reader} (h : n ≤ r.remaining) (s : Scene) :
    read (.bits n) ⟨r, s⟩ = .ok (r.rest.take n) ⟨r.advance n, s⟩ := by
  rw [read_eq, Per.Read.bits_of_le h]
  rfl

theorem read_bits_of_lt {n : Nat} {r : Per.Reader} (h : r.remaining < n) (s : Scene) :
    read (.bits n) ⟨r, s⟩ = .error (.incomplete n r.remaining) ⟨r, s⟩ := by
  rw [read_eq, Per.Read.bits_of_lt h]
  rfl

theorem read_ok {r : Per.Read α} {s s' : State} {a : α} (h : read r s = .ok a s') :
    r s.reader = .ok a s'.reader ∧ s'.scene = s.scene := by
  unfold read at h
  cases hr : r s.reader with
  | ok b reader =>
    rw [hr] at h
    cases h
    exact ⟨rfl, rfl⟩
  | error fault reader =>
    rw [hr] at h
    cases h

theorem read_bind (r : Per.Read α) (next : α → Per.Read β) :
    read (r >>= next) = read r >>= fun a => read (next a) := by
  funext s
  rw [EStateM.bind_eq]
  unfold read
  rw [EStateM.bind_eq]
  cases r s.reader <;> rfl

theorem under_of {name : String} {m : Dissect α} {r r' : Per.Reader} {s after : Scene}
    {o : Except Fault α} (h : m ⟨r, s.descend name⟩ = .of o ⟨r', after⟩) :
    under name m ⟨r, s⟩ = .of o ⟨r', s.ascend after⟩ := by
  unfold under
  dsimp only
  rw [h]
  cases o <;> rfl

/-- The payload of an extension is resolved with the region set, which is given back after it. -/
def resolving (act : Surely Nat) (region : Region) : Surely Unit := fun s =>
  let after := (act { s with context := { s.context with region := some region } }).2
  ((), { after with context := { after.context with region := s.context.region } })

theorem regionalExtension_eq (resolve : Resolver) (slot : Slot) :
    regionalExtension resolve slot = under "RegionalExtension" (do
      let region := UInt8.ofNat (← read (.number 8))
      emit (Node.leaf "regionId" (.enumerated region.toNat (Region.label? region)))
      let payload ← read (.openType "regExtValue")
      surely (resolving (resolve slot payload) region)) := rfl

/-! ## Scenes before and after -/

/-- Whatever a decoder comes to, the scene after it is related to the one before. -/
def Moves (R : Scene → Scene → Prop) (m : Dissect α) : Prop :=
  ∀ s : State, R s.scene (m s).state.scene

variable {R : Scene → Scene → Prop}

theorem Moves.bind (htrans : ∀ {s t u : Scene}, R s t → R t u → R s u) {m : Dissect α}
    {f : α → Dissect β} (hm : Moves R m) (hf : ∀ a, Moves R (f a)) : Moves R (m >>= f) := by
  intro s
  have hfirst := hm s
  rw [EStateM.bind_eq]
  cases hr : m s with
  | error fault t =>
    rw [hr] at hfirst
    exact hfirst
  | ok a t =>
    rw [hr] at hfirst
    exact htrans hfirst (hf a t)

theorem moves_read (hrefl : ∀ s : Scene, R s s) (r : Per.Read α) : Moves R (read r) := by
  intro s
  rw [read_eq, EStateM.Result.state_of]
  exact hrefl s.scene

theorem Moves.under {name : String}
    (hascend : ∀ {s t : Scene}, R (s.descend name) t → R s (s.ascend t)) {m : Dissect α}
    (h : Moves R m) : Moves R (under name m) := by
  intro s
  have hinner := h ⟨s.reader, s.scene.descend name⟩
  rw [under_of (m ⟨s.reader, s.scene.descend name⟩).eq_of, EStateM.Result.state_of]
  exact hascend hinner

end Dissect

/-! ## Alternatives -/

/-- What stands for an alternative that is none of the known ones. -/
def Alternatives.unknown (type : String) (extensible : Bool) (index : Nat) : Dissect Unit :=
  if extensible then do
    Dissect.emit (Node.raw (← Dissect.read (.openType type)))
  else
    throw (.invalidChoice type index)

theorem Alternatives.decode_of_le {resolve : Resolver} (type : String) (extensible : Bool)
    (index : Nat) : ∀ (a : Alternatives) {left : Nat}, a.count ≤ left →
      a.decode resolve type extensible index left = unknown type extensible index
  | .done, _, _ => by
    unfold decode
    rfl
  | .or _ more, left + 1, h =>
    decode_of_le type extensible index more (Nat.le_of_succ_le_succ h)

end V2x
