import V2x.Dissector.Registration
import V2x.Proofs.Dissector.Frame

/-!
# What registrations bind

After registrations that all succeed, the tables bind what they bound before and what was registered,
and nothing else (`bound_registerAll`).
-/

namespace V2x

theorem Table.get?_of_register {κ : Type} [TableKey κ] {t t' : Table κ} {key : κ} {g : Grammar}
    (h : t.register key g = .ok t') (k : κ) (g' : Grammar) :
    t'.get? k = some g' ↔ (k = key ∧ g' = g) ∨ t.get? k = some g' := by
  unfold Table.register at h
  split at h
  · cases h
  · next hfree =>
    cases h
    have hnone : t.get? key = none := by
      simpa [OrderedMap.contains, Table.get?] using hfree
    unfold Table.get? at hnone ⊢
    rw [OrderedMap.get?_insert]
    by_cases hk : Ranked.rank key = Ranked.rank k
    · obtain rfl := rank_inj.mp hk
      simp [hnone, eq_comm]
    · have hne : k ≠ key := fun e => hk (e ▸ rfl)
      simp [hk, hne]

/-- The table of the registration binds its key to its grammar. -/
def Registration.Bound : Registration → Dissector → Prop
  | .version v g, d => d.versions.get? v = some g
  | .message id g, d => d.messages.get? id = some g
  | .extension key g, d => d.extensions.get? key = some g

/-- The schemas that the standard dissector binds. -/
def Schema.builtIn : List Schema :=
  [ Denm.schema, Ssem.schema, GroupC.connectionManeuverAssist, GroupC.connectionTrajectory,
    GroupC.control, GroupC.intersectionState, GroupC.mapData, GroupC.position3D,
    GroupC.restrictionUserType, GroupC.signalStatusPackage ]

/-- The parsers that the standard dissector binds, and those that only mark octets or always fail. -/
def Parser.builtIn : Parser → Prop
  | .schema s => s ∈ Schema.builtIn
  | .script _ => False
  | .message | .undecoded | .marker _ | .failing _ => True

theorem Parser.builtIn.scriptFree {p : Parser} (h : p.builtIn) : p.scriptFree := by
  cases p with
  | script steps => exact h
  | _ => trivial

namespace Dissector

variable {d d' : Dissector}

theorem exists_of_map_eq_ok {ε α β : Type} {f : α → β} {x : Except ε α} {b : β}
    (h : f <$> x = .ok b) : ∃ a, x = .ok a ∧ f a = b := by
  cases x with
  | ok a => exact ⟨a, rfl, Except.ok.inj h⟩
  | error e => cases h

theorem bound_register {r : Registration} (h : d.register r = .ok d') (b : Registration) :
    b.Bound d' ↔ b = r ∨ b.Bound d := by
  cases r with
  | version version g =>
    obtain ⟨t, ht, rfl⟩ := exists_of_map_eq_ok h
    cases b <;> simp [Registration.Bound, Table.get?_of_register ht]
  | message id g =>
    obtain ⟨t, ht, rfl⟩ := exists_of_map_eq_ok h
    cases b <;> simp [Registration.Bound, Table.get?_of_register ht]
  | extension key g =>
    obtain ⟨t, ht, rfl⟩ := exists_of_map_eq_ok h
    cases b <;> simp [Registration.Bound, Table.get?_of_register ht]

theorem kept_register {r : Registration} (h : d.register r = .ok d') :
    d'.config = d.config ∧ d'.overrides = d.overrides := by
  cases r with
  | version version g =>
    obtain ⟨t, -, rfl⟩ := exists_of_map_eq_ok h
    exact ⟨rfl, rfl⟩
  | message id g =>
    obtain ⟨t, -, rfl⟩ := exists_of_map_eq_ok h
    exact ⟨rfl, rfl⟩
  | extension key g =>
    obtain ⟨t, -, rfl⟩ := exists_of_map_eq_ok h
    exact ⟨rfl, rfl⟩

theorem bound_registerAll {rs : List Registration} (h : registerAll rs d = (none, d'))
    (b : Registration) : b.Bound d' ↔ b ∈ rs ∨ b.Bound d := by
  induction rs generalizing d with
  | nil =>
    cases h
    simp
  | cons r rs ih =>
    unfold registerAll at h
    cases hr : d.register r with
    | error refusal =>
      rw [hr] at h
      cases h
    | ok d₁ =>
      rw [hr] at h
      rw [ih h, bound_register hr b, List.mem_cons, or_left_comm, or_assoc]

theorem kept_registerAll (rs : List Registration) (d : Dissector) :
    (registerAll rs d).2.config = d.config ∧ (registerAll rs d).2.overrides = d.overrides := by
  induction rs generalizing d with
  | nil => exact ⟨rfl, rfl⟩
  | cons r rs ih =>
    unfold registerAll
    cases hr : d.register r with
    | error refusal => exact ⟨rfl, rfl⟩
    | ok d₁ =>
      obtain ⟨hconfig, hoverrides⟩ := kept_register hr
      exact ⟨(ih d₁).1.trans hconfig, (ih d₁).2.trans hoverrides⟩

/-- Extensions go to schemas without cause codes. -/
def ExtensionsCauseFree (d : Dissector) : Prop :=
  ∀ {key : ExtensionKey} {g : Grammar}, d.extensions.get? key = some g →
    ∃ schema, g.parser = .schema schema ∧ schema.causeFree = true

/-! ## The standard dissector -/

section

variable {config : Config} (h : standard config = .ok d)
include h

theorem registerAll_of_standard :
    registerAll (Registration.standard config) (empty config) = (none, d) := by
  unfold standard build at h
  dsimp only [empty] at h ⊢
  generalize registerAll (Registration.standard config) _ = outcome at h ⊢
  obtain ⟨refusal, d'⟩ := outcome
  cases refusal with
  | none =>
    cases h
    rfl
  | some refusal => cases h

/-- The standard dissector can be evaluated. -/
theorem eq_of_standard {α : Type} {f : Dissector → α} {a : α}
    (heval : (standard config).map f = .ok a) : f d = a := by
  rw [h] at heval
  exact Except.ok.inj heval

theorem bound_standard (b : Registration) :
    b.Bound d ↔ b ∈ Registration.standard config := by
  rw [bound_registerAll (registerAll_of_standard h) b]
  cases b <;> simp [Registration.Bound, empty, Table.get?]

theorem overrides_standard : d.overrides = {} := by
  have hkept := (kept_registerAll (Registration.standard config) (empty config)).2
  rwa [registerAll_of_standard h] at hkept

theorem config_standard : d.config = config := by
  have hkept := (kept_registerAll (Registration.standard config) (empty config)).1
  rwa [registerAll_of_standard h] at hkept

theorem versions_standard {version : UInt8} (hmem : version ∈ config.versions) :
    d.versions.get? version = some ⟨"ItsPduHeader", "ITS PDU header", .message⟩ := by
  refine (bound_standard h (.version version _)).mpr ?_
  unfold Registration.standard
  simp [hmem]

theorem mem_extensions_of_standard {key : ExtensionKey} {g : Grammar}
    (hg : d.extensions.get? key = some g) : .extension key g ∈ Registration.extensions := by
  have hmem := (bound_standard h (.extension key g)).mp hg
  unfold Registration.standard Registration.undecodedFamilies at hmem
  simpa using hmem

theorem schema_of_extension {key : ExtensionKey} {g : Grammar} (hg : d.extensions.get? key = some g) :
    ∃ schema ∈ Schema.builtIn, g.parser = .schema schema ∧ schema.causeFree = true := by
  have hmem := mem_extensions_of_standard h hg
  simp only [Registration.extensions, Registration.groupC, List.mem_cons, List.not_mem_nil,
    Registration.extension.injEq, or_false] at hmem
  rcases hmem with ⟨-, rfl⟩ | ⟨-, rfl⟩ | ⟨-, rfl⟩ | ⟨-, rfl⟩ | ⟨-, rfl⟩ | ⟨-, rfl⟩ | ⟨-, rfl⟩ |
    ⟨-, rfl⟩ <;> exact ⟨_, by simp [Schema.builtIn], rfl, by decide⟩

theorem causeFree_standard : d.ExtensionsCauseFree := by
  intro key g hg
  obtain ⟨schema, -, hparser, hfree⟩ := schema_of_extension h hg
  exact ⟨schema, hparser, hfree⟩

/-- The standard dissector hands message bodies and extensions to schemas, or shows them as octets. -/
theorem parsers_standard : d.Binds fun p => p.plain ∧ p.builtIn where
  messages {id g} hg := by
    have hmem := (bound_standard h (.message id g)).mp hg
    unfold Registration.standard Registration.undecodedFamilies at hmem
    simp [Registration.messageGrammar, Registration.extensions, Registration.groupC] at hmem
    rcases hmem with ⟨-, rfl⟩ | ⟨-, rfl⟩ | ⟨-, rfl⟩ | ⟨-, rfl⟩ | ⟨-, rfl⟩ | ⟨-, rfl⟩ | ⟨-, rfl⟩ |
      ⟨-, rfl⟩ | ⟨-, rfl⟩ | ⟨-, rfl⟩ <;> simp [Parser.plain, Parser.builtIn, Schema.builtIn]
  extensions hg := by
    obtain ⟨schema, hschema, hparser, -⟩ := schema_of_extension h hg
    rw [hparser]
    exact ⟨trivial, hschema⟩
  overrides hg := by
    rw [overrides_standard h] at hg
    cases hg

theorem plain_standard : d.Binds Parser.plain :=
  (parsers_standard h).imp fun _ => And.left

theorem builtIn_standard : d.Binds Parser.builtIn :=
  (parsers_standard h).imp fun _ => And.right

theorem version_standard {version : UInt8} {g : Grammar} (hg : d.versions.get? version = some g) :
    g.parser = .message := by
  have hmem := (bound_standard h (.version version g)).mp hg
  unfold Registration.standard Registration.undecodedFamilies at hmem
  simp [Registration.extensions, Registration.groupC] at hmem
  obtain ⟨_, -, -, rfl⟩ := hmem
  rfl

end

end Dissector

end V2x
