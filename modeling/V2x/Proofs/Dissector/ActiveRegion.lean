import V2x.Proofs.Decode.ActiveRegion
import V2x.Proofs.Dissector.Frame

/-!
# The active region across parsers

A parser that decodes by a schema leaves the active region as it was, whatever the parsers of extensions do
to the context. These are handed their octets under the region that was read before them, at any depth
(`region_scoped`).
-/

namespace V2x.Dissector

/-- Runs parsers like `run`, but has `via` stand between schemas and the resolver of their extensions. -/
def runVia (d : Dissector) (via : Resolver → Resolver) : (depth : Nat) → Invoke
  | 0, _, _ => throw (.unsupported "nested parser")
  | depth + 1, .schema schema, data =>
    Run.recorded (.schema schema) data
      (Dissect.parse (Schema.decode (via (resolve d (runVia d via depth))) schema) data)
  | depth + 1, parser, data =>
    Run.recorded parser data (runWith d (runVia d via depth) parser data)

variable {d : Dissector}

theorem runVia_eq_run {via : Resolver → Resolver}
    (h : ∀ resolve, (via resolve).AgreeAnnounced resolve) (n : Nat) : d.runVia via n = d.run n := by
  induction n with
  | zero => rfl
  | succ n ih =>
    funext p data
    rw [run_succ, ← ih]
    cases p with
    | schema schema =>
      unfold runVia runWith parseSchema
      rw [Dissect.schema_eq_of_announced (h _) schema]
    | _ => rfl

theorem region_parseSchema (d : Dissector) (invoke : Invoke) (schema : Schema) (data : Octets)
    (s : Scene) :
    (parseSchema d invoke schema data s).state.context.region = s.context.region := by
  have hdecode := Dissect.keepsRegion_schema (resolve d invoke) schema ⟨.ofOctets data, s⟩
  rw [parseSchema, Dissect.parse_of
    (Schema.decode (resolve d invoke) schema ⟨.ofOctets data, s⟩).eq_of, EStateM.Result.state_of]
  exact hdecode

/-- The active region is that of the extension around, and no longer than its content lasts. Whatever a
resolver does, it is given back after an extension and a list of them; a payload is resolved under the
region that was read just before it. What a resolver would do in other scenes does not matter, to a single
decoder and to all the parsers of a run. A parser that decodes by a schema therefore leaves the region
alone, however the parsers of extensions treat it. -/
theorem region_scoped :
    (∀ (resolve : Resolver) (slot : Slot) (s : Dissect.State),
      (Dissect.regionalExtension resolve slot s).state.scene.context.region = s.scene.context.region ∧
      (Dissect.regionalList resolve slot s).state.scene.context.region = s.scene.context.region) ∧
    (∀ (resolve : Resolver) (slot : Slot) (r r₁ r₂ : Per.Reader) (s : Scene) (n : Nat)
      (payload : Octets), Per.Read.number 8 r = .ok n r₁ →
      Per.Read.openType "regExtValue" r₁ = .ok payload r₂ →
      (s.announced (UInt8.ofNat n)).Announces (UInt8.ofNat n) ∧
      Dissect.regionalExtension resolve slot ⟨r, s⟩ =
        .ok () ⟨r₂, s.withdraw (resolve slot payload (s.announced (UInt8.ofNat n))).2⟩) ∧
    (∀ left right : Resolver, left.AgreeAnnounced right →
      ∀ field : Field, field.decode left = field.decode right) ∧
    (∀ (d : Dissector) (via : Resolver → Resolver), (∀ resolve, (via resolve).AgreeAnnounced resolve) →
      d.runVia via = d.run) ∧
    (∀ (d : Dissector) (invoke : Invoke) (schema : Schema) (data : Octets) (s : Scene),
      (parseSchema d invoke schema data s).state.context.region = s.context.region) := by
  refine ⟨fun resolve slot s => ?_, ?_, ?_, ?_, region_parseSchema⟩
  · exact ⟨Dissect.keepsRegion_regionalExtension resolve slot s,
      Dissect.keepsRegion_regionalList resolve slot s⟩
  · intro resolve slot r r₁ r₂ s n payload hn hpayload
    refine ⟨s.announces_announced _, ?_⟩
    rw [Dissect.regionalExtension_run, hn]
    dsimp only
    rw [hpayload]
  · exact fun left right h => Dissect.field_eq_of_announced h
  · exact fun d via h => funext (runVia_eq_run h)

/-- A parser that leaves region 7 behind. -/
def astray : Resolver := fun _ payload s =>
  (payload.length, { s with context := { s.context with region := some 7 } })

/-- A payload of one octet for region 3, inside an extension for region 42. -/
theorem region_scoped_astray :
    let s : Scene := { context := { region := some 42 }, tree := Node.leaf "SSEM" .none }
    let reader := Per.Reader.ofOctets [3, 1, 171]
    let announced : Resolver → Resolver := fun resolve slot payload scene =>
      if scene.context.region = none then (0, scene) else resolve slot payload scene
    (Dissect.regionalExtension astray .position3D ⟨reader, s⟩).state.scene.context.region = some 42 ∧
      (Dissect.regionalList astray .position3D ⟨reader, s⟩).state.scene.context.region = some 42 ∧
      Dissect.regionalExtension astray .position3D ⟨reader, s⟩ =
        .ok () ⟨reader.advance 24, s.withdraw (astray .position3D [171] (s.announced 3)).2⟩ ∧
      (empty {}).runVia announced = (empty {}).run := by
  intro s reader announced
  obtain ⟨hkept, hresolved, -, hdeep, -⟩ := region_scoped
  have hagree : ∀ resolve, (announced resolve).AgreeAnnounced resolve := by
    intro _ _ _ region scene hscene
    dsimp only [announced]
    rw [hscene.1, if_neg (Option.some_ne_none region)]
  have hregion : Per.Read.number 8 reader = .ok 3 (reader.advance 8) :=
    EStateM.Result.eq_ok (by decide +kernel) (by decide +kernel)
  have hpayload : Per.Read.openType "regExtValue" (reader.advance 8) =
      .ok [171] (reader.advance 24) :=
    EStateM.Result.eq_ok (by decide +kernel) (by decide +kernel)
  exact ⟨(hkept astray .position3D ⟨reader, s⟩).1, (hkept astray .position3D ⟨reader, s⟩).2,
    (hresolved astray .position3D _ _ _ s 3 [171] hregion hpayload).2, hdeep _ _ hagree⟩

end V2x.Dissector
