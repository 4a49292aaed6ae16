import V2x.Proofs.Decode.Simulation

/-!
# What decoders read

What a decoder reads, and whether it fails, depends on the octets alone: it is what the schema makes of reads
without showing anything (`reads_schema`).
-/

namespace V2x

open Per (Reader Read)

/-- What a schema reads, whatever it shows. -/
def Per.Read.interpreter : Interpreter Read where
  read r := r
  emit _ := pure ()
  under _ body := body
  causeCode := do
    let _ ← Read.number 8
  subCauseCode := do
    let _ ← Read.number 8
  regionalExtension _ := do
    let _ ← Read.number 8
    let _ ← Read.openType "regExtValue"

namespace Dissect

variable {α β : Type}

/-- The decoder reads what `n` reads and comes to its value or fault. -/
def Reads (m : Dissect α) (n : Read α) : Prop :=
  ∀ s : State, (m s).outcome = (n s.reader).outcome ∧ (m s).state.reader = (n s.reader).state

theorem Reads.bind {m : Dissect α} {n : Read α} {f : α → Dissect β} {g : α → Read β}
    (h : Reads m n) (hnext : ∀ a, Reads (f a) (g a)) : Reads (m >>= f) (n >>= g) := by
  intro s
  obtain ⟨houtcome, hreader⟩ := h s
  rw [EStateM.bind_eq, EStateM.bind_eq]
  cases hm : m s <;> cases hn : n s.reader <;> simp only [hm, hn, EStateM.Result.outcome_ok,
    EStateM.Result.outcome_error, EStateM.Result.state_ok, EStateM.Result.state_error, reduceCtorEq,
    Except.ok.injEq, Except.error.injEq] at houtcome hreader
  · obtain ⟨rfl, rfl⟩ := And.intro houtcome hreader
    exact hnext _ _
  · exact ⟨congrArg Except.error houtcome, hreader⟩

theorem reads_of_quiet {m : Dissect Unit} (h : ∀ s, ∃ scene, m s = .ok () ⟨s.reader, scene⟩) :
    Reads m (pure ()) := by
  intro s
  obtain ⟨scene, hm⟩ := h s
  rw [hm]
  exact ⟨rfl, rfl⟩

theorem reads_read (r : Read α) : Reads (read r) r := by
  intro s
  rw [read_eq]
  simp

theorem Reads.under {m : Dissect Unit} {n : Read Unit} (h : Reads m n) (name : String) :
    Reads (under name m) n := by
  intro s
  have hrun := h { s with scene := s.scene.descend name }
  rw [under_of (m ⟨s.reader, s.scene.descend name⟩).eq_of, EStateM.Result.outcome_of,
    EStateM.Result.state_of]
  exact hrun

theorem reads_regionalExtension (resolve : Resolver) (slot : Slot) :
    Reads (regionalExtension resolve slot) (Read.interpreter.regionalExtension slot) := by
  rw [regionalExtension_eq]
  apply Reads.under
  apply (reads_read (Read.number 8)).bind
  intro region
  have hpayload : Reads (read (Read.openType "regExtValue") >>= fun payload =>
      surely (resolving (resolve slot payload) (UInt8.ofNat region)))
      (do let _ ← Read.openType "regExtValue") :=
    (reads_read _).bind fun payload => reads_of_quiet fun _ => ⟨_, rfl⟩
  exact (reads_of_quiet fun _ => ⟨_, rfl⟩).bind fun _ => hpayload

theorem reads_subCauseCode : Reads subCauseCode Read.interpreter.subCauseCode := by
  intro s
  have hnamed : ∀ vocabulary : Vocabulary, Reads (read (Read.number 8) >>= fun n =>
      emit (Node.leaf vocabulary.field
        (.enumerated (UInt8.ofNat n).toNat (vocabulary.label? (UInt8.ofNat n)))))
      (do let _ ← Read.number 8) :=
    fun vocabulary => (reads_read _).bind fun n => reads_of_quiet fun _ => ⟨_, rfl⟩
  exact hnamed s.scene.context.vocabulary s

theorem reads_causeCode : Reads causeCode Read.interpreter.causeCode :=
  (reads_read _).bind fun _ => reads_of_quiet fun _ => ⟨_, rfl⟩

def Reads.simulation (resolve : Resolver) :
    Interpreter.Simulation (interpreter resolve) Read.interpreter where
  Rel := Reads
  pure _ _ := ⟨rfl, rfl⟩
  bind := Reads.bind
  read _ := reads_read _
  rest := reads_read _
  emit _ := reads_of_quiet fun _ => ⟨_, rfl⟩
  under name _ _ h := h.under name
  subCauseCode := reads_subCauseCode
  regionalExtension := reads_regionalExtension resolve

theorem reads_field (resolve : Resolver) (field : Field) :
    Reads (field.decode resolve) (Read.interpreter.field field) := by
  rw [← field_eq_decode]
  exact (Reads.simulation resolve).field field reads_causeCode

theorem reads_schema (resolve : Resolver) (schema : Schema) :
    Reads (Schema.decode resolve schema) (Read.interpreter.schema schema) := by
  rw [← schema_eq_decode]
  exact (Reads.simulation resolve).schema schema (.inr reads_causeCode)

end Dissect

end V2x
