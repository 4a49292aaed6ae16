import V2x.Proofs.Decode.Simulation
import V2x.Proofs.Per.Taken

/-!
# Payloads are shorter than the message around them

Before an extension is resolved its region and the length of its payload have been read, an octet at least
for each. What a decoder does therefore depends on its resolver only for payloads with two octets less than
the reader has left (`schema_eq_of_agree`), and not at all where there are no extensions
(`schema_eq_of_extensionFree`).
-/

namespace V2x

def Operation.isExtension : Operation → Bool
  | .regionalExtension _ => true
  | _ => false

/-- Whether there are no regional extensions anywhere. -/
def Components.extensionFree (c : Components) : Bool :=
  c.operations.all fun op => !op.isExtension

def Resolver.AgreeBelow (n : Nat) (left right : Resolver) : Prop :=
  ∀ (slot : Slot) (payload : Octets), payload.length < n → left slot payload = right slot payload

namespace Dissect

variable {α β : Type}

/-- With at most `n` bits left the two decoders do the same, and give no bits back. -/
def SameWithin (n : Nat) (left right : Dissect α) : Prop :=
  ∀ s : State, s.reader.remaining ≤ n →
    left s = right s ∧ (left s).state.reader.remaining ≤ s.reader.remaining

variable {n : Nat} {left right : Resolver}

theorem sameWithin_of_reader {m : Dissect α} (h : ∀ s, (m s).state.reader = s.reader) :
    SameWithin n m m :=
  fun s _ => ⟨rfl, Nat.le_of_eq (congrArg Per.Reader.remaining (h s))⟩

theorem SameWithin.bind {l r : Dissect α} {f g : α → Dissect β} (h : SameWithin n l r)
    (hnext : ∀ a, SameWithin n (f a) (g a)) : SameWithin n (l >>= f) (r >>= g) := by
  intro s hs
  obtain ⟨heq, hle⟩ := h s hs
  rw [EStateM.bind_eq, EStateM.bind_eq, ← heq]
  cases hl : l s with
  | error fault t =>
    rw [hl] at hle
    exact ⟨rfl, hle⟩
  | ok a t =>
    rw [hl] at hle
    obtain ⟨heq', hle'⟩ := hnext a t (Nat.le_trans hle hs)
    exact ⟨heq', Nat.le_trans hle' hle⟩

theorem sameWithin_read {r : Per.Read α} (h : ∀ r', (r r').state.remaining ≤ r'.remaining) :
    SameWithin n (read r) (read r) := by
  refine fun s _ => ⟨rfl, ?_⟩
  rw [read_eq, EStateM.Result.state_of]
  exact h s.reader

/-- Behind a read the two decoders need to agree only on what it leaves. -/
theorem SameWithin.after {r : Per.Read α} {f g : α → Dissect β} (hbuilt : r.Built)
    (h : ∀ r₁ r₂ a, r r₁ = .ok a r₂ → r₁.remaining ≤ n → SameWithin r₂.remaining (f a) (g a)) :
    SameWithin n (read r >>= f) (read r >>= g) := by
  intro s hs
  have hle := hbuilt.forward.remaining_le s.reader
  rw [EStateM.bind_eq, EStateM.bind_eq, read_eq]
  cases hr : r s.reader with
  | error fault r₂ =>
    rw [hr] at hle
    exact ⟨rfl, hle⟩
  | ok a r₂ =>
    rw [hr] at hle
    obtain ⟨heq, hle'⟩ := h _ _ _ hr hs ⟨r₂, s.scene⟩ (Nat.le_refl _)
    exact ⟨heq, Nat.le_trans hle' hle⟩

theorem SameWithin.under {l r : Dissect α} (h : SameWithin n l r) (name : String) :
    SameWithin n (under name l) (under name r) := by
  intro s hs
  obtain ⟨heq, hle⟩ := h { s with scene := s.scene.descend name } hs
  unfold Dissect.under
  rw [← heq]
  refine ⟨rfl, ?_⟩
  cases hl : l { s with scene := s.scene.descend name } with
  | error fault t =>
    rw [hl] at hle
    exact hle
  | ok a t =>
    rw [hl] at hle
    exact hle

theorem sameWithin_regionalExtension (h : Resolver.AgreeBelow n left right) (slot : Slot) :
    SameWithin (8 * (n + 1)) (regionalExtension left slot) (regionalExtension right slot) := by
  rw [regionalExtension_eq, regionalExtension_eq]
  refine SameWithin.under ?_ _
  refine SameWithin.after (.number 8) fun r₁ r₂ region hregion hr₁ => ?_
  refine SameWithin.bind (sameWithin_of_reader fun _ => rfl) fun _ => ?_
  refine SameWithin.after (.openType _) fun r₃ r₄ payload hpayload hr₃ => ?_
  have h₁ := Per.Read.takes_number 8 _ _ _ hregion
  have h₂ := Per.Read.openType_ok hpayload
  rw [h slot payload (by omega)]
  exact sameWithin_of_reader fun _ => rfl

theorem sameWithin_subCauseCode : SameWithin n subCauseCode subCauseCode :=
  SameWithin.bind (sameWithin_of_reader fun _ => rfl) fun _ =>
    SameWithin.bind (sameWithin_read (Per.Read.Built.number 8).forward.remaining_le) fun _ =>
      sameWithin_of_reader fun _ => rfl

theorem sameWithin_causeCode : SameWithin n causeCode causeCode :=
  SameWithin.bind (sameWithin_read (Per.Read.Built.number 8).forward.remaining_le) fun _ =>
    sameWithin_of_reader fun _ => rfl

/-- Decoders with resolvers that agree on payloads below `n` octets. -/
def SameWithin.simulation (h : Resolver.AgreeBelow n left right) :
    Interpreter.Simulation (interpreter left) (interpreter right) where
  Rel l r := SameWithin (8 * (n + 1)) l r
  pure _ := sameWithin_of_reader fun _ => rfl
  bind := SameWithin.bind
  read h := sameWithin_read h.forward.remaining_le
  rest := sameWithin_read Per.Read.forward_rest.remaining_le
  emit _ := sameWithin_of_reader fun _ => rfl
  under name _ _ h := h.under name
  subCauseCode := sameWithin_subCauseCode
  regionalExtension := sameWithin_regionalExtension h

theorem schema_eq_of_agree (h : Resolver.AgreeBelow n left right) (schema : Schema) {s : State}
    (hs : s.reader.remaining ≤ 8 * (n + 1)) :
    Schema.decode left schema s = Schema.decode right schema s := by
  rw [← schema_eq_decode, ← schema_eq_decode]
  exact ((SameWithin.simulation h).schema schema (.inr sameWithin_causeCode) s hs).1

/-! ## No extensions -/

def sameRelation (left right : Resolver) :
    Interpreter.Relation (interpreter left) (interpreter right) where
  Rel m n := m = n
  pure _ := rfl
  bind h h' := by rw [h, funext h']
  read _ := rfl
  leaf _ _ := rfl
  under name _ _ h := congrArg (under name) h

theorem schema_eq_of_extensionFree {schema : Schema} (h : schema.extensionFree = true)
    (left right : Resolver) : Schema.decode left schema = Schema.decode right schema := by
  rw [← schema_eq_decode, ← schema_eq_decode]
  refine (sameRelation left right).schema schema fun op hop => ?_
  have hfree := List.all_eq_true.mp h op hop
  cases op with
  | regionalExtension slot => cases hfree
  | _ => rfl

end Dissect

end V2x
