import Mathlib.Data.List.Induction
import Mathlib.Data.List.Nodup
import V2x.Proofs.Dissector.Registered

/-!
# The first registration wins

A key goes to the grammar of the first registration that tried to bind it, over any sequence of build steps and
whichever of them failed (`firstWins_of_build`). The standard registrations may stop halfway, at a key that is
bound already or at a version that is listed twice.
-/

namespace V2x

/-- A key of one of the tables. -/
inductive Target
  | version (version : UInt8)
  | message (id : UInt8)
  | extension (key : ExtensionKey)
  deriving DecidableEq

/-- What is reported of a key that is bound already. -/
def Target.refusal : Target → Refusal
  | .version v => .duplicate "its.version" (TableKey.text v)
  | .message id => .duplicate "its.msg_id" (TableKey.text id)
  | .extension key => .duplicate "dsrc.regionid" (TableKey.text key)

def Target.isVersion : Target → Bool
  | .version _ => true
  | _ => false

namespace Registration

def target : Registration → Target
  | .version v _ => .version v
  | .message id _ => .message id
  | .extension key _ => .extension key

def grammar : Registration → Grammar
  | .version _ g => g
  | .message _ g => g
  | .extension _ g => g

/-- The grammar of the first registration with the target. -/
def firstFor (rs : List Registration) (t : Target) : Option Grammar :=
  (rs.find? fun r => r.target = t).map grammar

/-- Of registrations that are tried in turn, those that are: all up to the first whose target has been tried
before, be it by one of `earlier` or by one of themselves. -/
def tried (earlier : List Registration) : List Registration → List Registration
  | [] => []
  | r :: more =>
    if r.target ∈ earlier.map target then [r] else r :: tried (earlier ++ [r]) more

theorem firstFor_append (a b : List Registration) (t : Target) :
    firstFor (a ++ b) t = (firstFor a t).or (firstFor b t) := by
  unfold firstFor
  rw [List.find?_append]
  cases a.find? fun r => r.target = t <;> rfl

theorem firstFor_cons (r : Registration) (rs : List Registration) (t : Target) :
    firstFor (r :: rs) t = if r.target = t then some r.grammar else firstFor rs t := by
  unfold firstFor
  rw [List.find?_cons]
  by_cases h : r.target = t <;> simp [h]

theorem firstFor_eq_none {rs : List Registration} {t : Target} :
    firstFor rs t = none ↔ t ∉ rs.map target := by
  simp [firstFor, List.find?_eq_none]

/-- One more registration for a target that has been tried makes no difference. -/
theorem firstFor_concat_of_mem {rs : List Registration} {r : Registration}
    (h : r.target ∈ rs.map target) (t : Target) : firstFor (rs ++ [r]) t = firstFor rs t := by
  rw [firstFor_append, firstFor_cons]
  by_cases ht : r.target = t
  · subst ht
    cases hfirst : firstFor rs r.target with
    | none => exact absurd h (firstFor_eq_none.mp hfirst)
    | some g => rfl
  · simp [ht, firstFor]

end Registration

/-- The registrations of a step. -/
def BuildStep.entries (config : Config) : BuildStep → List Registration
  | .register r => [r]
  | .standard => Registration.standard config

/-- All registrations that have been tried in the course of the steps, the first of them first. -/
def BuildStep.tried (config : Config) (steps : List BuildStep) : List Registration :=
  steps.foldl (fun earlier step => earlier ++ Registration.tried earlier (step.entries config)) []

theorem Table.register_of_none {κ : Type} [TableKey κ] {t : Table κ} {key : κ}
    (h : t.get? key = none) (g : Grammar) :
    t.register key g = .ok { t with grammars := t.grammars.insert key g } := by
  unfold Table.get? at h
  simp [Table.register, OrderedMap.contains, h]

theorem Table.register_of_some {κ : Type} [TableKey κ] {t : Table κ} {key : κ} {bound : Grammar}
    (h : t.get? key = some bound) (g : Grammar) :
    t.register key g = .error (.duplicate t.name (TableKey.text key)) := by
  unfold Table.get? at h
  simp [Table.register, OrderedMap.contains, h]

theorem Table.get?_insert {κ : Type} [TableKey κ] [DecidableEq κ] (t : Table κ) (key k : κ) (g : Grammar) :
    ({ t with grammars := t.grammars.insert key g } : Table κ).get? k =
      if key = k then some g else t.get? k := by
  unfold Table.get?
  rw [OrderedMap.get?_insert]
  simp only [rank_inj]

namespace Dissector

open Registration (firstFor firstFor_append firstFor_cons firstFor_eq_none)

def bound? (d : Dissector) : Target → Option Grammar
  | .version version => d.versions.get? version
  | .message id => d.messages.get? id
  | .extension key => d.extensions.get? key

/-- The tables have the names that refusals give them. -/
structure Named (d : Dissector) : Prop where
  versions : d.versions.name = "its.version"
  messages : d.messages.name = "its.msg_id"
  extensions : d.extensions.name = "dsrc.regionid"

variable {d : Dissector}

/-! ## One registration -/

theorem register_of_bound (hd : d.Named) {r : Registration} (h : d.bound? r.target ≠ none) :
    d.register r = .error r.target.refusal := by
  cases r with
  | version v g =>
    obtain ⟨bound, hbound⟩ : ∃ bound, d.versions.get? v = some bound :=
      Option.ne_none_iff_exists'.mp h
    rw [register, Table.register_of_some hbound, hd.versions]
    rfl
  | message id g =>
    obtain ⟨bound, hbound⟩ : ∃ bound, d.messages.get? id = some bound :=
      Option.ne_none_iff_exists'.mp h
    rw [register, Table.register_of_some hbound, hd.messages]
    rfl
  | extension key g =>
    obtain ⟨bound, hbound⟩ : ∃ bound, d.extensions.get? key = some bound :=
      Option.ne_none_iff_exists'.mp h
    rw [register, Table.register_of_some hbound, hd.extensions]
    rfl

theorem register_of_free {r : Registration} (h : d.bound? r.target = none) :
    ∃ d', d.register r = .ok d' ∧ (d.Named → d'.Named) ∧
      ∀ t, d'.bound? t = if r.target = t then some r.grammar else d.bound? t := by
  cases r with
  | version v g =>
    have hfree : d.versions.get? v = none := h
    rw [register, Table.register_of_none hfree]
    refine ⟨_, rfl, fun hd => ⟨hd.versions, hd.messages, hd.extensions⟩, fun t => ?_⟩
    cases t <;> simp [bound?, Registration.target, Registration.grammar, Table.get?_insert]
  | message id g =>
    have hfree : d.messages.get? id = none := h
    rw [register, Table.register_of_none hfree]
    refine ⟨_, rfl, fun hd => ⟨hd.versions, hd.messages, hd.extensions⟩, fun t => ?_⟩
    cases t <;> simp [bound?, Registration.target, Registration.grammar, Table.get?_insert]
  | extension key g =>
    have hfree : d.extensions.get? key = none := h
    rw [register, Table.register_of_none hfree]
    refine ⟨_, rfl, fun hd => ⟨hd.versions, hd.messages, hd.extensions⟩, fun t => ?_⟩
    cases t <;> simp [bound?, Registration.target, Registration.grammar, Table.get?_insert]

/-! ## Several registrations -/

/-- Why a registration fails that is tried after those of `before`. -/
def Blocked (d : Dissector) (before : List Registration) (r : Registration) : Prop :=
  d.bound? r.target ≠ none ∨ r.target ∈ before.map Registration.target

/-- Just the registrations have been added. -/
def Added (d : Dissector) (added : List Registration) (d' : Dissector) : Prop :=
  ∀ t, d'.bound? t = (d.bound? t).or (firstFor added t)

/-- How far registrations come that are tried in turn: `added` are bound, and at the first of `rest` they stop. -/
structure Halts (d : Dissector) (added rest : List Registration) : Prop where
  clean (x : List Registration) (r : Registration) (y : List Registration) (h : added = x ++ r :: y) :
    ¬ Blocked d x r
  stopped {r : Registration} (h : rest.head? = some r) : Blocked d added r

section

variable {d₁ d' : Dissector} {r : Registration} {added rest : List Registration}

theorem Added.nil (d : Dissector) : Added d [] d := by
  intro t
  simp [firstFor]

theorem Added.cons (h : Added d₁ added d') (hr : d.bound? r.target = none)
    (hbound : ∀ t, d₁.bound? t = if r.target = t then some r.grammar else d.bound? t) :
    Added d (r :: added) d' := by
  intro t
  rw [h, hbound, firstFor_cons]
  by_cases ht : r.target = t
  · subst ht
    simp [hr]
  · simp [ht]

theorem Halts.cons (h : Halts d₁ added rest) (hr : d.bound? r.target = none)
    (hbound : ∀ t, d₁.bound? t = if r.target = t then some r.grammar else d.bound? t) :
    Halts d (r :: added) rest := by
  have hblocked : ∀ x r', Blocked d₁ x r' ↔ Blocked d (r :: x) r' := by
    intro x r'
    unfold Blocked
    rw [hbound, List.map_cons, List.mem_cons]
    by_cases ht : r.target = r'.target <;> simp [ht, eq_comm]
  constructor
  case clean =>
    intro x r' y hsplit
    cases x with
    | nil =>
      cases hsplit
      simp [Blocked, hr]
    | cons r₁ x =>
      obtain ⟨rfl, hmore⟩ : r = r₁ ∧ added = x ++ r' :: y := List.cons.inj hsplit
      rw [← hblocked]
      exact h.clean x r' y hmore
  case stopped =>
    intro r' hrest
    rw [← hblocked]
    exact h.stopped hrest

/-- Nothing is added before a registration for a key that is bound. -/
theorem Halts.nil (h : rest.head?.all fun r => d.bound? r.target ≠ none) : Halts d [] rest := by
  constructor
  case clean =>
    intro x r y hsplit
    simp at hsplit
  case stopped =>
    intro r hrest
    rw [hrest] at h
    exact .inl (of_decide_eq_true h)

end

theorem registerAll_halts (hd : d.Named) (rs : List Registration) :
    ∃ added rest d', rs = added ++ rest ∧ Halts d added rest ∧
      registerAll rs d = (rest.head?.map fun r => r.target.refusal, d') ∧
      d'.Named ∧ Added d added d' := by
  induction rs generalizing d with
  | nil => exact ⟨[], [], d, rfl, .nil rfl, rfl, hd, .nil d⟩
  | cons r more ih =>
    by_cases hr : d.bound? r.target = none
    · obtain ⟨d₁, hregister, hnamed, hbound⟩ := register_of_free hr
      obtain ⟨added, rest, d', rfl, hhalts, hall, hd', hadded⟩ := ih (hnamed hd)
      refine ⟨r :: added, rest, d', rfl, hhalts.cons hr hbound, ?_, hd', hadded.cons hr hbound⟩
      rw [registerAll, hregister]
      exact hall
    · refine ⟨[], r :: more, d, rfl, .nil (decide_eq_true hr), ?_, hd, .nil d⟩
      rw [registerAll, register_of_bound hd hr]
      rfl

/-- The tables hold the first of the registrations that have been tried for a key. -/
structure Holds (tried : List Registration) (d : Dissector) : Prop where
  named : d.Named
  bound (t : Target) : d.bound? t = firstFor tried t

theorem holds_registerAll {earlier : List Registration} (h : Holds earlier d)
    (rs : List Registration) :
    Holds (earlier ++ Registration.tried earlier rs) (registerAll rs d).2 := by
  induction rs generalizing d earlier with
  | nil => simpa [registerAll, Registration.tried] using h
  | cons r more ih =>
    by_cases hr : r.target ∈ earlier.map Registration.target
    · have hbound : d.bound? r.target ≠ none := by
        rw [h.bound, Ne, firstFor_eq_none]
        exact not_not_intro hr
      rw [registerAll, register_of_bound h.named hbound, Registration.tried, if_pos hr]
      refine ⟨h.named, fun t => ?_⟩
      rw [Registration.firstFor_concat_of_mem hr]
      exact h.bound t
    · have hfree : d.bound? r.target = none := by rwa [h.bound, firstFor_eq_none]
      obtain ⟨d₁, hregister, hnamed, hbound⟩ := register_of_free hfree
      have hadded : Added d [r] d₁ := (Added.nil d₁).cons hfree hbound
      have hholds : Holds (earlier ++ [r]) d₁ := by
        refine ⟨hnamed h.named, fun t => ?_⟩
        rw [hadded, firstFor_append, ← h.bound]
      rw [registerAll, hregister, Registration.tried, if_neg hr]
      simpa using ih hholds

/-! ## Whole builds -/

/-- What the steps make of a dissector without any bindings. -/
def built (config : Config) (steps : List BuildStep) : Dissector :=
  (buildAll steps (empty config)).2

theorem build_eq (d : Dissector) (step : BuildStep) :
    d.build step = registerAll (step.entries d.config) d := by
  cases step <;> rfl

theorem buildAll_append (a b : List BuildStep) (d : Dissector) :
    buildAll (a ++ b) d =
      ((buildAll a d).1 ++ (buildAll b (buildAll a d).2).1, (buildAll b (buildAll a d).2).2) := by
  induction a generalizing d with
  | nil => rfl
  | cons step a ih => simp only [List.cons_append, buildAll, ih]

theorem length_buildAll (steps : List BuildStep) (d : Dissector) :
    (buildAll steps d).1.length = steps.length := by
  induction steps generalizing d with
  | nil => rfl
  | cons step more ih => simp only [buildAll, List.length_cons, ih]

theorem holds_buildAll {earlier : List Registration} (h : Holds earlier d) (steps : List BuildStep) :
    let after := (buildAll steps d).2
    after.config = d.config ∧
      Holds (steps.foldl
        (fun earlier step => earlier ++ Registration.tried earlier (step.entries d.config)) earlier)
        after := by
  induction steps generalizing d earlier with
  | nil => exact ⟨rfl, h⟩
  | cons step more ih =>
    have hconfig := (kept_registerAll (step.entries d.config) d).1
    have hmore := ih (holds_registerAll h (step.entries d.config))
    rw [hconfig, ← build_eq] at hmore
    exact hmore

theorem holds_built (config : Config) (steps : List BuildStep) :
    (built config steps).config = config ∧
      Holds (BuildStep.tried config steps) (built config steps) := by
  refine holds_buildAll (d := empty config) ⟨⟨rfl, rfl, rfl⟩, fun t => ?_⟩ steps
  cases t <;> rfl

/-! ## The standard registrations -/

/-- The targets of the standard registrations besides the versions. -/
def standardTargets : List Target :=
  [.message 1, .message 10, .message 2, .message 4, .message 5, .message 6, .message 7, .message 8,
   .message 9, .message 11] ++
  ([.connectionManeuverAssist, .genericLane, .nodeAttributeSetXY, .intersectionState, .mapData,
    .position3D, .restrictionUserType, .signalStatusPackage].map fun slot =>
      .extension ⟨.groupC, slot⟩)

theorem targets_standard (config : Config) :
    (Registration.standard config).map Registration.target =
      config.versions.map Target.version ++ standardTargets := by
  simp [Registration.standard, Registration.undecodedFamilies, Registration.extensions,
    Registration.groupC, Registration.target, standardTargets, Function.comp_def]

/-- Only a version can be listed twice. -/
theorem version_of_repeated {config : Config} {x y : List Registration} {r : Registration}
    (h : Registration.standard config = x ++ r :: y) (hr : r.target ∈ x.map Registration.target) :
    ∃ v, r.target = .version v := by
  have htargets := targets_standard config
  rw [h, List.map_append, List.map_cons] at htargets
  have hversions : ∀ vs : List UInt8, (vs.map Target.version).filter (! ·.isVersion) = [] := by
    intro vs
    simp [List.filter_eq_nil_iff, Target.isVersion]
  have hfixed : standardTargets.filter (! ·.isVersion) = standardTargets := by decide
  have hothers := congrArg (List.filter (! ·.isVersion)) htargets
  rw [List.filter_append, List.filter_append, hversions, hfixed, List.nil_append] at hothers
  cases ht : r.target with
  | version v => exact ⟨v, rfl⟩
  | _ =>
    have hnodup : standardTargets.Nodup := by decide
    rw [← hothers, List.filter_cons_of_pos (by simp [ht, Target.isVersion])] at hnodup
    refine absurd rfl ((List.nodup_append.mp hnodup).2.2 _ ?_ _ List.mem_cons_self)
    exact List.mem_filter.mpr ⟨hr, by simp [ht, Target.isVersion]⟩

/-- A list in which nothing occurs again after it. -/
theorem nodup_of_splits {α β : Type} {f : α → β} {l : List α}
    (h : ∀ x a y, l = x ++ a :: y → f a ∉ x.map f) : (l.map f).Nodup := by
  induction l using List.reverseRecOn with
  | nil => exact List.nodup_nil
  | append_singleton l a ih =>
    rw [List.map_append, List.map_singleton, List.nodup_append]
    refine ⟨ih fun x b y hl => h x b (y ++ [a]) (by simp [hl]), List.nodup_singleton _, ?_⟩
    rintro b hb c hc rfl
    rw [List.mem_singleton.mp hc] at hb
    exact h l a [] rfl hb

theorem nodup_targets_iff (config : Config) :
    ((Registration.standard config).map Registration.target).Nodup ↔ config.versions.Nodup := by
  have hinjective : Function.Injective Target.version := fun _ _ => Target.version.inj
  rw [targets_standard, List.nodup_append, List.nodup_map_iff hinjective]
  constructor
  · exact And.left
  · intro h
    refine ⟨h, by decide, ?_⟩
    intro a ha b hb hab
    obtain ⟨v, -, rfl⟩ := List.mem_map.mp ha
    subst hab
    simp [standardTargets] at hb

theorem fails_iff {added rest : List Registration} {config : Config}
    (hsplit : Registration.standard config = added ++ rest) (h : Halts d added rest) :
    rest ≠ [] ↔ (∃ r ∈ Registration.standard config, d.bound? r.target ≠ none) ∨
      ¬ config.versions.Nodup := by
  constructor
  · intro hrest
    obtain ⟨r, more, rfl⟩ := List.exists_cons_of_ne_nil hrest
    rcases h.stopped rfl with hbound | hrepeated
    · exact .inl ⟨r, by simp [hsplit], hbound⟩
    · refine .inr fun hnodup => ?_
      rw [← nodup_targets_iff, hsplit, List.map_append, List.map_cons] at hnodup
      exact (List.nodup_append.mp hnodup).2.2 _ hrepeated _ List.mem_cons_self rfl
  · rintro hfails rfl
    rw [List.append_nil] at hsplit
    subst hsplit
    rcases hfails with ⟨r, hr, hbound⟩ | hrepeated
    · obtain ⟨x, y, hxy⟩ := List.append_of_mem hr
      exact h.clean x r y hxy (.inl hbound)
    · refine hrepeated ((nodup_targets_iff config).mp (nodup_of_splits fun x r y hxy hr => ?_))
      exact h.clean x r y hxy (.inr hr)

/-- What holds of the tables after build steps, whichever of these failed. -/
structure FirstWins (config : Config) (steps : List BuildStep) : Prop where
  /-- A key goes to the grammar of the first registration that tried to bind it, and no other key is bound. -/
  bound (t : Target) : (built config steps).bound? t = firstFor (BuildStep.tried config steps) t
  /-- A step comes to what it comes to on the tables that the steps before it have left. -/
  outcome (step : BuildStep) (more : List BuildStep) :
    (buildAll (steps ++ step :: more) (empty config)).1[steps.length]? =
      some ((built config steps).build step).1 ∧
    built config (steps ++ [step]) = ((built config steps).build step).2
  /-- A registration for a bound key is refused, by the name of its table and its key, and changes nothing. -/
  refused (r : Registration) (h : (built config steps).bound? r.target ≠ none) :
    (built config steps).build (.register r) = (some r.target.refusal, built config steps)
  /-- Any other one succeeds and binds its key only. -/
  accepted (r : Registration) (h : (built config steps).bound? r.target = none) :
    ∃ d, (built config steps).build (.register r) = (none, d) ∧ Added (built config steps) [r] d
  /-- The standard registrations are made up to the first that is blocked, which is reported. -/
  standard : ∃ added rest d, Registration.standard config = added ++ rest ∧
    Halts (built config steps) added rest ∧
    (built config steps).build .standard = (rest.head?.map fun r => r.target.refusal, d) ∧
    Added (built config steps) added d
  /-- They fail if one of their keys is bound already or a version is listed twice, and only then. -/
  fails : ((built config steps).build .standard).1 ≠ none ↔
    (∃ r ∈ Registration.standard config, (built config steps).bound? r.target ≠ none) ∨
      ¬ config.versions.Nodup
  /-- Among themselves, the standard registrations can repeat a version only. -/
  repeated {x y : List Registration} {r : Registration}
    (h : Registration.standard config = x ++ r :: y) (hr : r.target ∈ x.map Registration.target) :
    ∃ v, r.target = .version v
  /-- The standard registrations in their order. -/
  targets : (Registration.standard config).map Registration.target =
    config.versions.map Target.version ++ standardTargets

theorem firstWins (config : Config) (steps : List BuildStep) : FirstWins config steps := by
  obtain ⟨hconfig, hholds⟩ := holds_built config steps
  have hbuild := build_eq (built config steps)
  constructor
  case bound => exact hholds.bound
  case outcome =>
    intro step more
    have hlast := buildAll_append steps [step] (empty config)
    rw [buildAll_append, List.getElem?_append_right (Nat.le_of_eq (length_buildAll _ _)),
      length_buildAll, Nat.sub_self]
    exact ⟨rfl, congrArg Prod.snd hlast⟩
  case refused =>
    intro r h
    rw [hbuild, BuildStep.entries, registerAll, register_of_bound hholds.named h]
  case accepted =>
    intro r h
    obtain ⟨d, hregister, -, hbound⟩ := register_of_free h
    refine ⟨d, ?_, (Added.nil d).cons h hbound⟩
    rw [hbuild, BuildStep.entries, registerAll, hregister]
    rfl
  case standard =>
    obtain ⟨added, rest, d, hsplit, hhalts, hall, -, hadded⟩ :=
      registerAll_halts hholds.named (Registration.standard config)
    refine ⟨added, rest, d, hsplit, hhalts, ?_, hadded⟩
    rw [hbuild, BuildStep.entries, hconfig, hall]
  case fails =>
    obtain ⟨added, rest, d, hsplit, hhalts, hall, -, -⟩ :=
      registerAll_halts hholds.named (Registration.standard config)
    rw [← fails_iff hsplit hhalts, hbuild, BuildStep.entries, hconfig, hall]
    cases rest <;> simp
  case repeated => exact version_of_repeated
  case targets => exact targets_standard config

/-- The first registration wins over any build, and the standard dissector can be built just if no version is
listed twice. -/
theorem firstWins_of_build (config : Config) (steps : List BuildStep) :
    FirstWins config steps ∧ ((∃ d, standard config = .ok d) ↔ config.versions.Nodup) := by
  refine ⟨firstWins config steps, ?_⟩
  have hfails := (firstWins config []).fails
  have hfree : ∀ t, (built config []).bound? t = none := fun t => by cases t <;> rfl
  simp only [hfree, ne_eq, not_true_eq_false, and_false, exists_false, false_or] at hfails
  rw [← not_iff_not.mp hfails]
  show (∃ d, standard config = .ok d) ↔ ((empty config).build .standard).1 = none
  unfold standard
  rcases (empty config).build .standard with ⟨refusal, d⟩
  cases refusal <;> simp

def spare : Grammar :=
  ⟨"spare", "Spare", .undecoded⟩

theorem firstWins_of_build_spare :
    let steps : List BuildStep := [.register (.message 1 spare), .standard]
    (built {} steps).bound? (.version 2) = some ⟨"ItsPduHeader", "ITS PDU header", .message⟩ ∧
      (built {} steps).bound? (.message 1) = some spare ∧
      (built {} steps).bound? (.message 10) = none ∧
      (built {} steps).build (.register (.message 1 spare)) =
        (some (.duplicate "its.msg_id" "1"), built {} steps) ∧
      ¬ ∃ d, standard { versions := [1, 2, 1] } = .ok d := by
  intro steps
  have hbuilt := (firstWins_of_build {} steps).1
  have htwice := (firstWins_of_build { versions := [1, 2, 1] } []).2
  refine ⟨hbuilt.bound _, hbuilt.bound _, hbuilt.bound _, hbuilt.refused _ ?_, ?_⟩
  · rw [hbuilt.bound]
    exact Option.some_ne_none spare
  · rw [htwice]
    decide

end Dissector

end V2x
