import V2x.Proofs.Decode.Unregioned
import V2x.Proofs.Dissector.Dispatch
import V2x.Proofs.Dissector.Steps
import V2x.Tree.Query

/-!
# What the policy for extensions without a region decides

Two dissectors that differ only in this policy run the same parsers on the same octets, with the same results,
and show the same but for the content of extensions without a region (`dispatch_policy`). This rests on every
payload being resolved while an extension is decoded; a script may also have payloads of its own resolved, and
the policy then shows where it does so (`not_alike_of_resolve`).
-/

namespace V2x

/-- Whether all payloads that the parser has resolved belong to extensions that it decodes. -/
def Parser.resolveFree : Parser → Prop
  | .script steps => ∀ step ∈ steps, step.isResolve = false
  | _ => True

theorem Parser.scriptFree.resolveFree {p : Parser} (h : p.scriptFree) : p.resolveFree := by
  cases p with
  | script steps => exact h.elim
  | _ => trivial

theorem Run.Twin.recorded {left right : Run Nat} (h : left.Twin right) (p : Parser) (data : Octets) :
    (Run.recorded p data left).Twin (Run.recorded p data right) := by
  intro s t hst
  obtain ⟨o, s', t', hleft, hright, hscene⟩ := h { s with calls := [] } { t with calls := [] }
    ⟨hst.context, rfl, hst.tree⟩
  refine ⟨o, _, _, Run.recorded_of hleft p data, Run.recorded_of hright p data, ?_⟩
  refine ⟨hscene.context, ?_, hscene.tree⟩
  dsimp only
  rw [hst.calls, hscene.calls]

theorem Dissect.Twin.parse {left right : Dissect Unit} (h : Twin left right) (data : Octets) :
    (Dissect.parse left data).Twin (Dissect.parse right data) := by
  intro s t hst
  obtain ⟨o, r, s', t', hleft, hright, hscene⟩ := h (.ofOctets data) s t hst
  exact ⟨_, s', t', parse_of hleft, parse_of hright, hscene⟩

namespace Dissector

def withNoRegion (d : Dissector) (policy : NoRegion) : Dissector :=
  { d with config := { d.config with noRegion := policy } }

/-- No parser is bound to extensions without a region. -/
def RegionsOnly (d : Dissector) : Prop :=
  ∀ slot : Slot, d.extensions.get? ⟨.unspecified, slot⟩ = none

variable {d : Dissector} {left right : Invoke}

theorem resolve_shows (h : d.RegionsOnly) (invoke : Invoke) :
    (resolve d invoke).Shows d.config.noRegion := by
  intro slot payload s hs
  unfold resolve
  rw [hs, Option.getD_some]
  dsimp only
  cases hpolicy : d.config.noRegion with
  | skip =>
    rw [if_pos ⟨rfl, rfl⟩, Node.unregioned]
    split
    · rw [Node.pushAll_nil]
    · rfl
  | attempt =>
    rw [if_neg fun hskip => NoRegion.noConfusion hskip.2, h slot]
    rfl

theorem twin_delegate {g : Grammar} {span : Octets}
    (h : (left g.parser span).Twin (right g.parser span)) :
    (delegate left g span).Twin (delegate right g span) := by
  intro s t hst
  obtain ⟨o, s', t', hleft, hright, hscene⟩ := h _ _ (hst.descend g.description)
  unfold delegate
  rw [hleft, hright]
  cases o with
  | ok n => exact ⟨rfl, hst.ascend hscene⟩
  | error fault => exact ⟨rfl, hst.ascend (hscene.emit _)⟩

theorem twin_dispatchVersion {version : UInt8} {data : Octets}
    (h : ∀ {g}, d.versions.get? version = some g → (left g.parser data).Twin (right g.parser data)) :
    ((d.withNoRegion .skip).dispatchVersion left version data).Twin
      ((d.withNoRegion .attempt).dispatchVersion right version data) := by
  intro s t hst
  have hsame : (d.withNoRegion .attempt).versions.get? version =
    (d.withNoRegion .skip).versions.get? version := rfl
  unfold dispatchVersion
  rw [hsame]
  cases hg : (d.withNoRegion .skip).versions.get? version with
  | none => exact ⟨rfl, (hst.emit _).emit _⟩
  | some g =>
    obtain ⟨o, s', t', hleft, hright, hscene⟩ := h hg s t hst
    dsimp only
    rw [hleft, hright]
    cases o with
    | ok n => exact ⟨rfl, hscene⟩
    | error fault => exact ⟨rfl, hscene.emit _⟩

section

variable (hd : d.Binds Parser.resolveFree) (hregions : d.RegionsOnly)
  (h : ∀ (p : Parser) (data : Octets), p.resolveFree → (left p data).Twin (right p data))
include hd h

theorem twin_dispatchMessage (id : UInt8) (body : Octets) :
    (dispatchMessage (d.withNoRegion .skip) left id body).Twin
      (dispatchMessage (d.withNoRegion .attempt) right id body) := by
  intro s t hst
  have hsame : (d.withNoRegion .attempt).effective? id = (d.withNoRegion .skip).effective? id := rfl
  unfold dispatchMessage
  rw [hsame]
  cases hg : (d.withNoRegion .skip).effective? id with
  | none => exact ⟨rfl, hst.emit _⟩
  | some g =>
    exact twin_delegate (h _ _ (hd.effective hg)) _ _ (hst.modify (Context.beginMessage g.name))

theorem twin_parseMessage (data : Octets) :
    (parseMessage (d.withNoRegion .skip) left data).Twin
      (parseMessage (d.withNoRegion .attempt) right data) := by
  intro s t hst
  cases hdecode : Header.decode data with
  | error fault =>
    refine ⟨.error fault, s, t, ?_, ?_, hst⟩ <;> unfold parseMessage <;> rw [hdecode] <;> rfl
  | ok front =>
    obtain ⟨header, body⟩ := front
    have hheader := (hst.emit (headerNode header)).modify fun c => { c with header := some header }
    obtain ⟨hcount, hscene⟩ := twin_dispatchMessage hd h header.messageId body _ _ hheader
    refine ⟨.ok (Header.size + _), _, _, parseMessage_of_decode hdecode _ _ s, ?_, hscene⟩
    refine (parseMessage_of_decode hdecode _ _ t).trans ?_
    exact congrArg (fun count => EStateM.Result.ok (Header.size + count) _) hcount

include hregions

theorem resolve_twins :
    (resolve (d.withNoRegion .skip) left).Twins (resolve (d.withNoRegion .attempt) right) where
  skip := resolve_shows (d := d.withNoRegion .skip) hregions left
  attempt := resolve_shows (d := d.withNoRegion .attempt) hregions right
  regioned slot payload region s t hs hregion hst := by
    have ht : t.context.region = some region := hst.context ▸ hs
    have hskip : ∀ policy : Prop, ¬(region = Region.unspecified ∧ policy) := fun _ h => hregion h.1
    have hsame : (d.withNoRegion .attempt).extensions = (d.withNoRegion .skip).extensions := rfl
    unfold resolve
    rw [hs, ht, Option.getD_some]
    dsimp only
    rw [if_neg (hskip _), if_neg (hskip _)]
    rw [hsame]
    cases hg : (d.withNoRegion .skip).extensions.get? ⟨region, slot⟩ with
    | none => exact hst.emit _
    | some g => exact (twin_delegate (h _ _ (hd.extensions hg)) s t hst).2

theorem twin_parseSchema (schema : Schema) (data : Octets) :
    (parseSchema (d.withNoRegion .skip) left schema data).Twin
      (parseSchema (d.withNoRegion .attempt) right schema data) :=
  (Dissect.twin_schema (resolve_twins hd hregions h) schema).parse data

def twinActions : Actions (d.withNoRegion .skip) (d.withNoRegion .attempt) left right where
  Rel := Dissect.Twin
  pure := Dissect.twin_pure
  bind := Dissect.Twin.bind
  read _ := Dissect.twin_read _
  leaf _ _ := Dissect.twin_emit _
  context := Dissect.twin_context
  modifyContext := Dissect.twin_modifyContext
  decode := Dissect.twin_field (resolve_twins hd hregions h)
  dispatchMessage id body := Dissect.twin_surely (twin_dispatchMessage hd h id body)
  parseMessage data := Dissect.twin_run (twin_parseMessage hd h data)
  parseSchema schema data := Dissect.twin_run (twin_parseSchema hd hregions h schema data)

theorem twin_runWith {p : Parser} (hp : p.resolveFree) (data : Octets) :
    (runWith (d.withNoRegion .skip) left p data).Twin
      (runWith (d.withNoRegion .attempt) right p data) := by
  cases p with
  | message => exact twin_parseMessage hd h data
  | schema schema => exact twin_parseSchema hd hregions h schema data
  | undecoded => exact fun s t hst => ⟨.ok data.length, _, _, rfl, rfl, hst.emit _⟩
  | marker name => exact fun s t hst => ⟨.ok data.length, _, _, rfl, rfl, hst.emit _⟩
  | failing fault => exact fun s t hst => ⟨.error fault, s, t, rfl, rfl, hst⟩
  | script steps => exact Dissect.Twin.parse ((twinActions hd hregions h).runSteps steps (.inl hp)) data

end

section

variable (hd : d.Binds Parser.resolveFree) (hregions : d.RegionsOnly)
include hd hregions

theorem twin_run (n : Nat) {p : Parser} (hp : p.resolveFree) (data : Octets) :
    (run (d.withNoRegion .skip) n p data).Twin (run (d.withNoRegion .attempt) n p data) := by
  induction n generalizing p data with
  | zero => exact fun s t hst => ⟨.error (.unsupported "nested parser"), s, t, rfl, rfl, hst⟩
  | succ n ih => exact (twin_runWith hd hregions (fun q inner hq => ih hq inner) hp data).recorded p data

theorem twin_invoke {p : Parser} (hp : p.resolveFree) (data : Octets) :
    ((d.withNoRegion .skip).invoke p data).Twin ((d.withNoRegion .attempt).invoke p data) :=
  twin_run hd hregions _ hp data

theorem twin_dispatch (hversions : ∀ {version g}, d.versions.get? version = some g →
    g.parser.resolveFree) (pdu : Octets) :
    let skipped := (d.withNoRegion .skip).dispatch pdu
    let attempted := (d.withNoRegion .attempt).dispatch pdu
    attempted.consumed = skipped.consumed ∧ attempted.header = skipped.header ∧
      attempted.grammar = skipped.grammar ∧ attempted.calls = skipped.calls ∧
      skipped.tree.Twin attempted.tree := by
  intro skipped attempted
  have hroot : Scene.Twins { tree := root d.config pdu.length } { tree := root d.config pdu.length } :=
    ⟨rfl, rfl, .refl _⟩
  cases hdata : pdu.take d.config.maxSize with
  | nil =>
    have hskipped : skipped = _ := dispatch_of_take_nil (d := d.withNoRegion .skip) hdata
    have hattempted : attempted = _ := dispatch_of_take_nil (d := d.withNoRegion .attempt) hdata
    rw [hskipped, hattempted]
    exact ⟨rfl, rfl, rfl, rfl, .refl _⟩
  | cons version rest =>
    have hskipped : skipped = _ := dispatch_of_take_cons (d := d.withNoRegion .skip) hdata
    have hattempted : attempted = _ := dispatch_of_take_cons (d := d.withNoRegion .attempt) hdata
    obtain ⟨hconsumed, hscene⟩ := twin_dispatchVersion
      (fun hg => twin_invoke hd hregions (hversions hg) (version :: rest)) _ _ hroot
    rw [hskipped, hattempted]
    exact ⟨hconsumed, congrArg Context.header hscene.context, congrArg Context.grammar hscene.context,
      hscene.calls, hscene.tree⟩

end

/-! ## The standard dissector under both policies -/

theorem withNoRegion_self {policy : NoRegion} (h : d.config.noRegion = policy) :
    d.withNoRegion policy = d := by
  subst h
  rfl

theorem register_withNoRegion (d : Dissector) (policy : NoRegion) (r : Registration) :
    (d.withNoRegion policy).register r = (d.register r).map fun d => d.withNoRegion policy := by
  cases r with
  | version version g =>
    show (d.versions.register version g >>= _) = (d.versions.register version g >>= _).map _
    cases d.versions.register version g <;> rfl
  | message id g =>
    show (d.messages.register id g >>= _) = (d.messages.register id g >>= _).map _
    cases d.messages.register id g <;> rfl
  | extension key g =>
    show (d.extensions.register key g >>= _) = (d.extensions.register key g >>= _).map _
    cases d.extensions.register key g <;> rfl

theorem registerAll_withNoRegion (policy : NoRegion) (rs : List Registration) (d : Dissector) :
    registerAll rs (d.withNoRegion policy) =
      ((registerAll rs d).1, (registerAll rs d).2.withNoRegion policy) := by
  induction rs generalizing d with
  | nil => rfl
  | cons r more ih =>
    unfold registerAll
    rw [register_withNoRegion]
    cases d.register r with
    | ok d => exact ih d
    | error refusal => rfl

/-- The tables do not depend on the policy. -/
theorem standard_withNoRegion {config : Config} (h : standard config = .ok d) (policy : NoRegion) :
    standard { config with noRegion := policy } = .ok (d.withNoRegion policy) := by
  have hbuilt : (empty { config with noRegion := policy }).build .standard =
      (none, d.withNoRegion policy) := by
    have hall := registerAll_withNoRegion policy (Registration.standard config) (empty config)
    rw [registerAll_of_standard h] at hall
    exact hall
  unfold standard
  rw [hbuilt]

theorem regionsOnly_standard {config : Config} (h : standard config = .ok d) : d.RegionsOnly := by
  intro slot
  refine Option.eq_none_iff_forall_ne_some.mpr fun g hg => ?_
  have hmem := mem_extensions_of_standard h hg
  simp [Registration.extensions, Registration.groupC, Region.unspecified, Region.groupC] at hmem

theorem resolveFree_standard {config : Config} (h : standard config = .ok d) :
    d.Binds Parser.resolveFree :=
  (builtIn_standard h).imp fun _ hp => hp.scriptFree.resolveFree

/-- The policy decides what is shown of extensions without a region, and nothing else. Under either policy as
many octets are accounted for, header and grammar are the same, and the same parsers run on the same octets.
The trees differ only where such an extension is decoded. Its payload is shown as the policy has it, and that
is all: no parser is called. -/
theorem dispatch_policy {config : Config} {skip attempt : Dissector}
    (hskip : standard { config with noRegion := .skip } = .ok skip)
    (hattempt : standard { config with noRegion := .attempt } = .ok attempt)
    (overrides : OrderedMap UInt8 Grammar)
    (hoverrides : ∀ {id g}, overrides.get? id = some g → g.parser.resolveFree) (pdu : Octets) :
    let skipping : Dissector := { skip with overrides }
    let attempting : Dissector := { attempt with overrides }
    let skipped := skipping.dispatch pdu
    let attempted := attempting.dispatch pdu
    (attempted.consumed = skipped.consumed ∧ attempted.header = skipped.header ∧
      attempted.grammar = skipped.grammar ∧ attempted.calls = skipped.calls) ∧
    skipped.tree.pruneUnregioned = attempted.tree.pruneUnregioned ∧
    skipped.tree.Twin attempted.tree ∧
    ∀ (invoke : Invoke) (slot : Slot) (r r₁ r₂ : Per.Reader) (payload : Octets) (s : Scene),
      Per.Read.number 8 r = .ok 0 r₁ → Per.Read.openType "regExtValue" r₁ = .ok payload r₂ →
      Dissect.regionalExtension (resolve skipping invoke) slot ⟨r, s⟩ =
        .ok () ⟨r₂, s.emit (Node.extension .unspecified (Node.unregioned .skip slot payload))⟩ ∧
      Dissect.regionalExtension (resolve attempting invoke) slot ⟨r, s⟩ =
        .ok () ⟨r₂, s.emit (Node.extension .unspecified (Node.unregioned .attempt slot payload))⟩ := by
  intro skipping attempting skipped attempted
  have hpolicy : skipping.config.noRegion = .skip := congrArg Config.noRegion (config_standard hskip)
  have hattempting : skipping.withNoRegion .attempt = attempting := by
    have heq := Except.ok.inj ((standard_withNoRegion hskip .attempt).symm.trans hattempt)
    exact congrArg (fun d : Dissector => { d with overrides }) heq
  have hregions : skipping.RegionsOnly := fun slot => regionsOnly_standard hskip slot
  have hbinds : skipping.Binds Parser.resolveFree :=
    ⟨(resolveFree_standard hskip).messages, (resolveFree_standard hskip).extensions, hoverrides⟩
  have hversions : ∀ {version g}, skipping.versions.get? version = some g → g.parser.resolveFree := by
    intro version g hg
    rw [version_standard hskip hg]
    trivial
  have htwin := twin_dispatch hbinds hregions hversions pdu
  rw [withNoRegion_self hpolicy, hattempting] at htwin
  obtain ⟨hconsumed, hheader, hgrammar, hcalls, htree⟩ := htwin
  refine ⟨⟨hconsumed, hheader, hgrammar, hcalls⟩, htree.pruned, htree, ?_⟩
  intro invoke slot r r₁ r₂ payload s hregion hpayload
  have hshows : (resolve skipping invoke).Shows .skip := hpolicy ▸ resolve_shows hregions invoke
  have hshows' : (resolve attempting invoke).Shows .attempt := by
    rw [← hattempting]
    exact resolve_shows (d := skipping.withNoRegion .attempt) hregions invoke
  exact ⟨Dissect.regionalExtension_of_shows hshows slot hregion rfl hpayload s,
    Dissect.regionalExtension_of_shows hshows' slot hregion rfl hpayload s⟩

/-- A status message, of an identifier that only an override knows, with an extension without a region. -/
def unregionedStatus : Octets :=
  [2, 99, 0, 0, 0, 1] ++ Per.WriteStep.write
    [ .bits 0 4, .constrained 1000 0 65535, .constrained 1 1 32,
      .bits 0 2, .constrained 7 0 127, .bits 0 1, .constrained 300 0 65535, .constrained 1 1 32,
      .bits 1 7, .index 0 3 true, .constrained 5 0 255, .index 4 8 true,
      .constrained 1 1 4, .bits 0 8, .openType [85] ]

def ownStatus : Grammar :=
  ⟨"own", "Own status", .schema Schema.Ssem.schema⟩

theorem dispatch_policy_status :
    ∃ skip attempt, standard {} = .ok skip ∧ standard { noRegion := .attempt } = .ok attempt ∧
      let skipped := (skip.override 99 ownStatus).dispatch unregionedStatus
      let attempted := (attempt.override 99 ownStatus).dispatch unregionedStatus
      attempted.consumed = skipped.consumed ∧ attempted.calls = skipped.calls ∧
        skipped.tree.pruneUnregioned = attempted.tree.pruneUnregioned ∧
        skipped.tree.worst? = some .note ∧ attempted.tree.worst? = none ∧
        ∀ (invoke : Invoke) (s : Scene),
          Dissect.regionalExtension (resolve (skip.override 99 ownStatus) invoke) .signalStatusPackage
              ⟨.ofOctets [0, 1, 85], s⟩ =
            .ok () ⟨(Per.Reader.ofOctets [0, 1, 85]).advance 24, s.emit (Node.extension .unspecified
              [(Node.raw [85]).addNote
                ⟨.note, "Reg-SignalStatusPackage value without a region is not decoded"⟩])⟩ := by
  obtain ⟨skip, hskip⟩ : ∃ d, standard {} = .ok d := ⟨_, rfl⟩
  obtain ⟨attempt, hattempt⟩ : ∃ d, standard { noRegion := .attempt } = .ok d := ⟨_, rfl⟩
  refine ⟨skip, attempt, hskip, hattempt, ?_⟩
  have hempty : attempt.overrides = skip.overrides :=
    (overrides_standard hattempt).trans (overrides_standard hskip).symm
  have hown : (skip.override 99 ownStatus).Binds Parser.resolveFree :=
    (resolveFree_standard hskip).override (show ownStatus.parser.resolveFree from trivial)
  let worst (d : Dissector) := ((d.override 99 ownStatus).dispatch unregionedStatus).tree.worst?
  have hskipped : worst skip = some .note := eq_of_standard hskip (f := worst) (by decide +kernel)
  have hattempted : worst attempt = none := eq_of_standard hattempt (f := worst) (by decide +kernel)
  let reader := Per.Reader.ofOctets [0, 1, 85]
  have hregion : Per.Read.number 8 reader = .ok 0 (reader.advance 8) :=
    EStateM.Result.eq_ok (by decide +kernel) (by decide +kernel)
  have hpayload : Per.Read.openType "regExtValue" (reader.advance 8) = .ok [85] (reader.advance 24) :=
    EStateM.Result.eq_ok (by decide +kernel) (by decide +kernel)
  obtain ⟨⟨hconsumed, -, -, hcalls⟩, hpruned, -, hextension⟩ :=
    @dispatch_policy {} skip attempt hskip hattempt (skip.override 99 ownStatus).overrides hown.overrides
      unregionedStatus
  have hsame : ({ attempt with overrides := (skip.override 99 ownStatus).overrides } : Dissector) =
      attempt.override 99 ownStatus := by
    unfold override
    rw [hempty]
  rw [hsame] at hconsumed hcalls hpruned
  refine ⟨hconsumed, hcalls, hpruned, hskipped, hattempted, fun invoke s => ?_⟩
  exact (hextension invoke .signalStatusPackage _ _ _ [85] s hregion hpayload).1

def ownPayload : Grammar :=
  ⟨"own", "Own", .script [.resolve .signalStatus [85]]⟩

/-- A script may have a payload resolved that belongs to no extension. -/
theorem not_alike_of_resolve :
    ∃ skip attempt, standard {} = .ok skip ∧ standard { noRegion := .attempt } = .ok attempt ∧
      ((skip.override 7 ownPayload).dispatch [2, 7, 0, 0, 0, 0]).tree.pruneUnregioned ≠
        ((attempt.override 7 ownPayload).dispatch [2, 7, 0, 0, 0, 0]).tree.pruneUnregioned := by
  obtain ⟨skip, hskip⟩ : ∃ d, standard {} = .ok d := ⟨_, rfl⟩
  obtain ⟨attempt, hattempt⟩ : ∃ d, standard { noRegion := .attempt } = .ok d := ⟨_, rfl⟩
  refine ⟨skip, attempt, hskip, hattempt, fun hsame => ?_⟩
  let pruned (d : Dissector) := ((d.override 7 ownPayload).dispatch [2, 7, 0, 0, 0, 0]).tree.pruneUnregioned
  have hnote : (pruned skip).worst? = some .note :=
    eq_of_standard hskip (f := fun d => (pruned d).worst?) (by decide +kernel)
  have hnone : (pruned attempt).worst? = none :=
    eq_of_standard hattempt (f := fun d => (pruned d).worst?) (by decide +kernel)
  have hworst : (pruned skip).worst? = (pruned attempt).worst? := congrArg Node.worst? hsame
  rw [hnote, hnone] at hworst
  cases hworst

end Dissector

end V2x
