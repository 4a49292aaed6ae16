import V2x.Proofs.Decode.Payload

/-!
# The region of an extension

The region of an extension is active while its content is resolved, and the one before it is given back,
whatever has become of the content (`keepsRegion_schema`). A decoder asks its resolver nowhere else, so that
it depends on what the resolver does in such scenes only (`field_eq_of_announced`).
-/

namespace V2x

def Node.ofRegion (region : Region) : Node :=
  leaf "regionId" (.enumerated region.toNat (Region.label? region))

/-- Where the content of an extension is resolved: the node of the extension shows its region and nothing
more so far, and this region is the active one. -/
def Scene.Announces (region : Region) (s : Scene) : Prop :=
  s.context.region = some region ∧
    s.tree = (Node.leaf "RegionalExtension" .none).push (Node.ofRegion region)

/-- The scene for the content of an extension in a message that has come as far as `s`. -/
def Scene.announced (s : Scene) (region : Region) : Scene :=
  { (s.descend "RegionalExtension").emit (Node.ofRegion region) with
    context := { s.context with region := some region } }

theorem Scene.announces_announced (s : Scene) (region : Region) :
    (s.announced region).Announces region :=
  ⟨rfl, rfl⟩

/-- The scene after the content of an extension, with the region that was active before. -/
def Scene.withdraw (s inner : Scene) : Scene :=
  s.ascend { inner with context := { inner.context with region := s.context.region } }

def Scene.SameRegion (s after : Scene) : Prop :=
  after.context.region = s.context.region

def Resolver.AgreeAnnounced (left right : Resolver) : Prop :=
  ∀ (slot : Slot) (payload : Octets) (region : Region) (s : Scene),
    s.Announces region → left slot payload s = right slot payload s

namespace Dissect

variable {α β : Type}

/-- What an extension comes to: faults of its own reads apart, its content is resolved under the region
that was read before it. -/
theorem regionalExtension_run (resolve : Resolver) (slot : Slot) (r : Per.Reader) (s : Scene) :
    regionalExtension resolve slot ⟨r, s⟩ =
      match Per.Read.number 8 r with
      | .error fault r₁ => .error fault ⟨r₁, s.ascend (s.descend "RegionalExtension")⟩
      | .ok n r₁ =>
        let region := UInt8.ofNat n
        match Per.Read.openType "regExtValue" r₁ with
        | .error fault r₂ =>
          .error fault
            ⟨r₂, s.ascend ((s.descend "RegionalExtension").emit (Node.ofRegion region))⟩
        | .ok payload r₂ => .ok () ⟨r₂, s.withdraw (resolve slot payload (s.announced region)).2⟩ := by
  rw [regionalExtension_eq]
  unfold under
  rw [EStateM.bind_eq, read_eq]
  cases hn : Per.Read.number 8 r with
  | error fault r₁ => rfl
  | ok n r₁ =>
    dsimp only [EStateM.Result.outcome_ok, EStateM.Result.state_ok, EStateM.Result.of_ok]
    rw [EStateM.bind_eq]
    dsimp only [emit]
    rw [EStateM.bind_eq, read_eq]
    cases hp : Per.Read.openType "regExtValue" r₁ with
    | error fault r₂ => rfl
    | ok payload r₂ => rfl

theorem regionalExtension_eq_of_announced {left right : Resolver} (h : left.AgreeAnnounced right)
    (slot : Slot) : regionalExtension left slot = regionalExtension right slot := by
  funext s
  rw [regionalExtension_run, regionalExtension_run]
  split
  · rfl
  · next n r₁ _ =>
    dsimp only
    split
    · rfl
    · next payload r₂ _ => rw [h slot payload _ _ (s.scene.announces_announced _)]

theorem perform_eq_of_announced {left right : Resolver} (h : left.AgreeAnnounced right)
    (op : Operation) : (interpreter left).perform op = (interpreter right).perform op := by
  cases op with
  | regionalExtension slot => exact regionalExtension_eq_of_announced h slot
  | _ => rfl

theorem field_eq_of_announced {left right : Resolver} (h : left.AgreeAnnounced right)
    (field : Field) : field.decode left = field.decode right := by
  rw [← field_eq_decode, ← field_eq_decode]
  exact (sameRelation left right).field field fun op _ => perform_eq_of_announced h op

theorem schema_eq_of_announced {left right : Resolver} (h : left.AgreeAnnounced right)
    (schema : Schema) : Schema.decode left schema = Schema.decode right schema := by
  rw [← schema_eq_decode, ← schema_eq_decode]
  exact (sameRelation left right).schema schema fun op _ => perform_eq_of_announced h op

/-! ## After an extension -/

def KeepsRegion (m : Dissect α) : Prop :=
  Moves Scene.SameRegion m

theorem keepsRegion_of_same {m : Dissect α}
    (h : ∀ s, (m s).state.scene.context.region = s.scene.context.region) : KeepsRegion m :=
  h

theorem KeepsRegion.bind {m : Dissect α} {f : α → Dissect β} (hm : KeepsRegion m)
    (hf : ∀ a, KeepsRegion (f a)) : KeepsRegion (m >>= f) :=
  Moves.bind (R := Scene.SameRegion) (fun h h' => h'.trans h) hm hf

theorem keepsRegion_read (r : Per.Read α) : KeepsRegion (read r) :=
  moves_read (R := Scene.SameRegion) (fun _ => rfl) r

theorem KeepsRegion.under {m : Dissect α} (h : KeepsRegion m) (name : String) :
    KeepsRegion (under name m) :=
  Moves.under (fun hinner => hinner) h

/-- The resolver may leave any region behind. -/
theorem keepsRegion_regionalExtension (resolve : Resolver) (slot : Slot) :
    KeepsRegion (regionalExtension resolve slot) := by
  rw [regionalExtension_eq]
  refine KeepsRegion.under ((keepsRegion_read _).bind fun _ => ?_) _
  refine (keepsRegion_of_same fun _ => rfl).bind fun _ => (keepsRegion_read _).bind fun _ => ?_
  exact keepsRegion_of_same fun _ => rfl

def KeepsRegion.simulation (resolve : Resolver) :
    Interpreter.Simulation (interpreter resolve) (interpreter resolve) where
  Rel m _ := KeepsRegion m
  pure _ := keepsRegion_of_same fun _ => rfl
  bind := KeepsRegion.bind
  read _ := keepsRegion_read _
  rest := keepsRegion_read _
  emit _ := keepsRegion_of_same fun _ => rfl
  under name _ _ h := h.under name
  subCauseCode := (keepsRegion_of_same fun _ => rfl).bind fun _ =>
    (keepsRegion_read _).bind fun _ => keepsRegion_of_same fun _ => rfl
  regionalExtension := keepsRegion_regionalExtension resolve

theorem keepsRegion_causeCode : KeepsRegion causeCode :=
  (keepsRegion_read _).bind fun _ => keepsRegion_of_same fun _ => rfl

theorem keepsRegion_schema (resolve : Resolver) (schema : Schema) :
    KeepsRegion (Schema.decode resolve schema) := by
  rw [← schema_eq_decode]
  exact (KeepsRegion.simulation resolve).schema schema (.inr keepsRegion_causeCode)

theorem keepsRegion_regionalList (resolve : Resolver) (slot : Slot) :
    KeepsRegion (regionalList resolve slot) := by
  rw [← regionalList_eq]
  exact (KeepsRegion.simulation resolve).toRelation.field (.regionalList slot) fun op hop => by
    cases List.mem_singleton.mp hop
    exact keepsRegion_regionalExtension resolve slot

end Dissect

end V2x
