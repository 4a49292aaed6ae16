import V2x.Proofs.Decode.Simulation
import V2x.Proofs.Per.Taken

/-!
# How far a decoder gets

A decoder goes on by bits that its reader has left, so that it never touches more octets than it was given
(`Advances.consumed_le`).
-/

namespace V2x.Dissect

variable {α β : Type}

/-- The reader goes on by bits that it has left, whether or not the decoder comes to a value. -/
def Advances (m : Dissect α) : Prop :=
  ∀ s : State, ∃ k ≤ s.reader.remaining, (m s).state.reader = s.reader.advance k

theorem advances_of_same {m : Dissect α} (h : ∀ s, (m s).state.reader = s.reader) : Advances m :=
  fun s => ⟨0, Nat.zero_le _, h s⟩

theorem advances_pure (a : α) : Advances (pure a : Dissect α) :=
  advances_of_same fun _ => rfl

theorem advances_emit (n : Node) : Advances (emit n) :=
  advances_of_same fun _ => rfl

theorem advances_context : Advances context :=
  advances_of_same fun _ => rfl

theorem advances_modifyContext (f : Context → Context) : Advances (modifyContext f) :=
  advances_of_same fun _ => rfl

theorem advances_surely (act : Surely α) : Advances (surely act) :=
  advances_of_same fun _ => rfl

theorem Advances.bind {m : Dissect α} {f : α → Dissect β} (hm : Advances m)
    (hf : ∀ a, Advances (f a)) : Advances (m >>= f) := by
  intro s
  obtain ⟨k, hk, hreader⟩ := hm s
  rw [EStateM.bind_eq]
  cases hr : m s with
  | error fault t =>
    rw [hr] at hreader
    exact ⟨k, hk, hreader⟩
  | ok a t =>
    rw [hr] at hreader
    obtain ⟨more, hmore, hlast⟩ := hf a t
    rw [EStateM.Result.state_ok] at hreader
    rw [hreader, Per.Reader.remaining_advance] at hmore
    refine ⟨k + more, by omega, ?_⟩
    rw [← Per.Reader.advance_advance, ← hreader]
    exact hlast

theorem advances_read {r : Per.Read α} (h : r.Forward) : Advances (read r) := by
  intro s
  rw [read_eq, EStateM.Result.state_of]
  exact h s.reader

theorem advances_run (act : Run α) : Advances (run act) := by
  refine advances_of_same fun s => ?_
  unfold run
  cases act s.scene <;> rfl

theorem Advances.under {m : Dissect α} (h : Advances m) (name : String) :
    Advances (under name m) := by
  intro s
  obtain ⟨k, hk, hreader⟩ := h { s with scene := s.scene.descend name }
  refine ⟨k, hk, ?_⟩
  rw [under_of (m ⟨s.reader, s.scene.descend name⟩).eq_of, EStateM.Result.state_of]
  exact hreader

theorem advances_regionalExtension (resolve : Resolver) (slot : Slot) :
    Advances (regionalExtension resolve slot) := by
  rw [regionalExtension_eq]
  refine Advances.under ((advances_read (Per.Read.Built.number 8).forward).bind fun _ => ?_) _
  refine (advances_emit _).bind fun _ => ?_
  exact (advances_read (Per.Read.Built.openType _).forward).bind fun _ => advances_surely _

def Advances.simulation (resolve : Resolver) :
    Interpreter.Simulation (interpreter resolve) (interpreter resolve) where
  Rel m _ := Advances m
  pure := advances_pure
  bind := Advances.bind
  read h := advances_read h.forward
  rest := advances_read Per.Read.forward_rest
  emit := advances_emit
  under name _ _ h := h.under name
  subCauseCode := advances_context.bind fun _ =>
    (advances_read (Per.Read.Built.number 8).forward).bind fun _ => advances_emit _
  regionalExtension := advances_regionalExtension resolve

theorem advances_causeCode : Advances causeCode :=
  (advances_read (Per.Read.Built.number 8).forward).bind fun _ =>
    (advances_modifyContext _).bind fun _ => advances_emit _

theorem advances_field (resolve : Resolver) (field : Field) : Advances (field.decode resolve) := by
  rw [← field_eq_decode]
  exact (Advances.simulation resolve).field field advances_causeCode

theorem advances_schema (resolve : Resolver) (schema : Schema) :
    Advances (Schema.decode resolve schema) := by
  rw [← schema_eq_decode]
  exact (Advances.simulation resolve).schema schema (.inr advances_causeCode)

/-- A part of an octet counts as a whole one, but the octets end with a whole one. -/
theorem Advances.consumed_le {body : Dissect Unit} (h : Advances body) {data : Octets}
    {s after : Scene} {n : Nat} (hrun : parse body data s = .ok n after) : n ≤ data.length := by
  obtain ⟨k, hk, hreader⟩ := h ⟨.ofOctets data, s⟩
  rw [Per.Reader.remaining_ofOctets] at hk
  unfold parse at hrun
  cases hr : body ⟨.ofOctets data, s⟩ with
  | error fault t =>
    rw [hr] at hrun
    cases hrun
  | ok a t =>
    rw [hr] at hrun hreader
    cases hrun
    rw [EStateM.Result.state_ok] at hreader
    rw [hreader, Per.Reader.consumedOctets_advance]
    omega

end V2x.Dissect
