import V2x.Dissector.Dispatch
import V2x.Proofs.Decode.Pairs
import V2x.Proofs.Dissector.Frame
import V2x.Proofs.History
import V2x.Schema.Denm

/-!
# Sub-causes follow causes

Steps over one context may record causes, begin messages and read causes and sub-causes in any order. What
a sub-cause is called then depends on the cause that was recorded last, if the message has one yet
(`CauseStep.shows_run`).
-/

namespace V2x

/-- A step that records a cause, forgets the one before or shows what is recorded. -/
inductive CauseStep
  | setCause (code : UInt8)
  | beginMessage (grammar : String)
  | cause (name : String)
  | subCauseCode
  deriving DecidableEq, Repr

namespace CauseStep

def step : CauseStep → Step
  | .setCause code => .setCause code
  | .beginMessage grammar => .beginMessage grammar
  | .cause name => .decode (Schema.cause name)
  | .subCauseCode => .decode .subCauseCode

/-- What a step at a reader makes of the active cause, if anything. A cause is recorded when the octet of its
code is there, whatever comes after it. -/
def writes : CauseStep × Per.Reader → Option (Option UInt8)
  | (.setCause code, _) => some (some code)
  | (.beginMessage _, _) => some none
  | (.cause _, r) => r.causeCode?.map some
  | (.subCauseCode, _) => none

/-- Steps that were run from `r` on, each with the reader at which it began. -/
def history (r : Per.Reader) (steps : List CauseStep) (outcomes : List Dissector.StepOutcome) :
    List (CauseStep × Per.Reader) :=
  steps.zip (r :: outcomes.map fun outcome => { r with position := outcome.position })

/-- What a step has shown when it came to `result`, with a cause that was active by then. -/
inductive Shows (active : Option UInt8) : CauseStep → (result : Except Fault Answer) → List Node → Prop
  | setCause (code : UInt8) : Shows active (.setCause code) (.ok .done) []
  | beginMessage (grammar : String) : Shows active (.beginMessage grammar) (.ok .done) []
  | unread (fault : Fault) : Shows active .subCauseCode (.error fault) []
  | subCauseCode (code : UInt8) :
    Shows active .subCauseCode (.ok .done) [Node.ofSubCause (.of active) code]
  | cause (name : String) {result : Except Fault Answer} {children : List Node}
    (h : Cause.Shown active result children) : Shows active (.cause name) result [{ name, children }]

/-- A sub-cause is named after a cause just if this was the active one. -/
theorem Shows.active_iff {active : Option UInt8} {result : Except Fault Answer} {n : Node}
    (h : Shows active .subCauseCode result [n]) {cause : Cause} (hcause : cause ∈ Cause.all) :
    n.name = cause.vocabulary.field ↔ active = some cause.code := by
  cases h with
  | subCauseCode code => exact Vocabulary.field_of_iff hcause active

end CauseStep

namespace Dissector

variable {d : Dissector} {invoke : Invoke}

theorem runStep_decode {field : Field} {r r' : Per.Reader} {s s' : Scene} {o : Except Fault Unit}
    (h : field.decode (resolve d invoke) ⟨r, s⟩ = .of o ⟨r', s'⟩) :
    runStep d invoke (.decode field) ⟨r, s⟩ = .of (o.map fun _ => .done) ⟨r', s'⟩ := by
  cases o with
  | error fault => exact EStateM.bind_of_error h _
  | ok _ => exact EStateM.bind_of_ok h _

theorem runStep_causes (d : Dissector) (invoke : Invoke) (step : CauseStep) (r : Per.Reader)
    (s : Scene) :
    ∃ (result : Except Fault Answer) (k : Nat) (context : Context) (shown : List Node),
      runStep d invoke step.step ⟨r, s⟩ =
        .of result ⟨r.advance k, s.change ⟨context, shown, []⟩⟩ ∧
      context.cause = (CauseStep.writes (step, r)).getD s.context.cause ∧
      step.Shows context.cause result shown := by
  cases step with
  | setCause code =>
    refine ⟨.ok .done, 0, { s.context with cause := some code }, [], ?_, rfl, .setCause code⟩
    rw [Scene.change_nil]
    rfl
  | beginMessage grammar =>
    refine ⟨.ok .done, 0, s.context.beginMessage grammar, [], ?_, rfl, .beginMessage grammar⟩
    rw [Scene.change_nil]
    rfl
  | cause name =>
    obtain ⟨o, k, children, hrun, hshown⟩ := Dissect.cause_run (resolve d invoke) name r s
    refine ⟨_, k, _, _, runStep_decode hrun, ?_, .cause name ?_⟩
    · dsimp only [CauseStep.writes]
      cases r.causeCode? <;> rfl
    · cases hshown with
      | nothing fault => exact .nothing fault
      | code fault h => exact .code fault (by rw [h]; rfl)
      | whole subCause additions _ h => exact .whole subCause additions _ (by rw [h]; rfl)
  | subCauseCode =>
    have hrun := Dissect.subCauseCode_run r s
    obtain ⟨k, -, hr, -⟩ := (Per.Read.Built.number 8).local r
    cases hn : Per.Read.number 8 r with
    | error fault r₁ =>
      rw [hn] at hrun hr
      obtain rfl : r₁ = r.advance k := hr
      refine ⟨.error fault, k, s.context, [], ?_, rfl, .unread fault⟩
      rw [Scene.change_context]
      exact runStep_decode (o := .error fault) hrun
    | ok n r₁ =>
      rw [hn] at hrun hr
      obtain rfl : r₁ = r.advance k := hr
      exact ⟨_, k, _, _, runStep_decode (o := .ok ()) hrun, rfl, .subCauseCode (UInt8.ofNat n)⟩

theorem trySteps_of {step : Step} {r r' : Per.Reader} {c : Context} {s' : Scene}
    {result : Except Fault Answer}
    (h : runStep d d.invoke step ⟨r, { context := c, tree := Node.leaf "step" .none }⟩ =
      .of result ⟨r', s'⟩) (more : List Step) :
    d.trySteps (step :: more) r c =
      ⟨result, s'.tree.children, r'.position, s'.context⟩ :: d.trySteps more r' s'.context := by
  rw [trySteps, h]
  cases result <;> rfl

theorem shows_run (d : Dissector) (steps : List CauseStep) (r : Per.Reader) (c : Context) (i : Nat)
    {step : CauseStep} (hstep : steps[i]? = some step) :
    let outcomes := d.trySteps (steps.map CauseStep.step) r c
    let active := lastWrite CauseStep.writes c.cause
      ((CauseStep.history r steps outcomes).take (i + 1))
    ∃ outcome, outcomes[i]? = some outcome ∧ outcome.context.cause = active ∧
      step.Shows active outcome.result outcome.shown := by
  intro outcomes active
  suffices h : ∃ outcome, outcomes[i]? = some outcome ∧ outcome.context.cause = active ∧
      step.Shows outcome.context.cause outcome.result outcome.shown by
    obtain ⟨outcome, houtcome, hactive, hshows⟩ := h
    exact ⟨outcome, houtcome, hactive, hactive ▸ hshows⟩
  induction steps generalizing i r c with
  | nil => cases hstep
  | cons first more ih =>
    obtain ⟨result, k, context, shown, hrun, hcause, hshows⟩ := runStep_causes d d.invoke first r
      { context := c, tree := Node.leaf "step" .none }
    have houtcomes : outcomes = ⟨result, shown, (r.advance k).position, context⟩ ::
        d.trySteps (more.map CauseStep.step) (r.advance k) context := trySteps_of hrun _
    dsimp only [active]
    rw [houtcomes]
    cases i with
    | zero =>
      cases hstep
      refine ⟨_, rfl, ?_, hshows⟩
      exact hcause.trans (lastWrite_singleton CauseStep.writes c.cause _).symm
    | succ i =>
      -- What the first step has written stands before the writes of the others.
      obtain ⟨outcome, houtcome, hlast, hshown⟩ := ih (r.advance k) context i hstep
      refine ⟨outcome, houtcome, hlast.trans ?_, hshown⟩
      rw [hcause]
      exact (lastWrite_cons CauseStep.writes c.cause (first, r) _).symm

theorem pairs_denm (d : Dissector) (invoke : Invoke) (data : Octets) (s : Scene) :
    ∃ nodes, (parseSchema d invoke Schema.Denm.schema data s).state.tree = s.tree.pushAll nodes ∧
      ∀ n ∈ Node.preorderIn nodes, n.Paired ["eventType", "linkedCause"] := by
  have hkept : Components.keepsForCauses ["eventType", "linkedCause"] Schema.Denm.schema = true := by
    decide
  obtain ⟨nodes, htree, hpaired⟩ :=
    Dissect.pairs_schema (resolve d invoke) hkept ⟨.ofOctets data, s⟩
  refine ⟨nodes, ?_, hpaired⟩
  rw [parseSchema, Dissect.parse_of
    (Schema.decode (resolve d invoke) Schema.Denm.schema ⟨.ofOctets data, s⟩).eq_of,
    EStateM.Result.state_of]
  exact htree

/-- A sub-cause is named and labelled after the cause that was recorded last. However steps follow each
other on one context, also where some of them fail, each shows a sub-cause by the vocabulary of the last
cause whose octet has been read or that has been set since the last message began, and by the generic one if
there is none. In an environmental notification this is the cause beside it, whatever the context has been
before. -/
theorem subCause_of_last :
    (∀ (d : Dissector) (steps : List CauseStep) (r : Per.Reader) (c : Context) (i : Nat)
      (step : CauseStep), steps[i]? = some step →
      let outcomes := d.trySteps (steps.map CauseStep.step) r c
      let active := lastWrite CauseStep.writes c.cause
        ((CauseStep.history r steps outcomes).take (i + 1))
      ∃ outcome, outcomes[i]? = some outcome ∧ outcome.context.cause = active ∧
        step.Shows active outcome.result outcome.shown) ∧
    (∀ (d : Dissector) (invoke : Invoke) (data : Octets) (s : Scene),
      ∃ nodes, (parseSchema d invoke Schema.Denm.schema data s).state.tree = s.tree.pushAll nodes ∧
        ∀ n ∈ Node.preorderIn nodes, n.Paired ["eventType", "linkedCause"]) :=
  ⟨fun d steps r c i _ hstep => shows_run d steps r c i hstep, pairs_denm⟩

/-- A cause whose additions cannot be read still names the sub-cause after it. -/
theorem subCause_of_last_failed :
    let steps : List CauseStep := [.setCause 3, .cause "eventType", .subCauseCode]
    let outcomes := (empty {}).trySteps (steps.map CauseStep.step)
      (Per.Reader.ofOctets [0xB0, 0x80, 0xF0, 0x20]) {}
    let notification := (parseSchema (empty {}) (empty {}).invoke Schema.Denm.schema
      (0x80 :: List.replicate 34 0 ++ [6, 2]) { tree := Node.leaf "DENM" .none }).state.tree
    (∃ outcome, outcomes[2]? = some outcome ∧ outcome.context.cause = some 97 ∧
      CauseStep.subCauseCode.Shows (some 97) outcome.result outcome.shown) ∧
    ∃ n ∈ Node.preorderIn notification.children, n.name = "eventType" ∧
      ∃ cause code, n.children[0]? = some (Node.ofCause cause) ∧
        n.children[1]? = some (Node.ofSubCause (Cause.vocabularyFor cause) code) := by
  intro steps outcomes notification
  obtain ⟨hsteps, hdenm⟩ := subCause_of_last
  constructor
  · have hactive : lastWrite CauseStep.writes none
        ((CauseStep.history (.ofOctets [0xB0, 0x80, 0xF0, 0x20]) steps outcomes).take 3) = some 97 := by
      decide +kernel
    obtain ⟨outcome, houtcome, hcause, hshows⟩ := hsteps (empty {}) steps
      (.ofOctets [0xB0, 0x80, 0xF0, 0x20]) {} 2 .subCauseCode rfl
    rw [hactive] at hcause hshows
    exact ⟨outcome, houtcome, hcause, hshows⟩
  · obtain ⟨nodes, htree, hpaired⟩ := hdenm (empty {}) (empty {}).invoke
      (0x80 :: List.replicate 34 0 ++ [6, 2]) { tree := Node.leaf "DENM" .none }
    obtain rfl : notification.children = nodes := congrArg Node.children htree
    have hfound : (Node.preorderIn notification.children).any
        (fun n => n.name = "eventType" ∧ 2 ≤ n.children.length) = true := by
      decide +kernel
    obtain ⟨n, hn, hboth⟩ := List.any_eq_true.mp hfound
    obtain ⟨hname, hlen⟩ := of_decide_eq_true hboth
    exact ⟨n, hn, hname, hpaired n hn (hname ▸ List.mem_cons_self) hlen⟩

end Dissector

end V2x
