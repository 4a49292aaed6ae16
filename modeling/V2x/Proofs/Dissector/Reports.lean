import V2x.Proofs.Decode.Reports
import V2x.Proofs.Dissector.Dispatch
import V2x.Proofs.Dissector.Growth
import V2x.Proofs.Dissector.Isolation

/-!
# Every fault is reported once

A parser leaves its own fault to whoever has run it, which is the dissector: there it is reported, on the
octets that the parser was given, and goes no further. What is shown of a message therefore raises one alarm
for each parser that has failed, in the order in which they have ended (`dispatch_alarms`).
-/

namespace V2x

open Call (reportsIn report)
open Node (alarmsIn)

theorem Call.reportsIn_singleton (call : Call) :
    reportsIn [call] = reportsIn call.inner ++
      match call.result with
      | .ok _ => []
      | .error fault => [report (call.span, fault)] := by
  obtain ⟨parser, span, result, inner⟩ := call
  cases result <;> simp [reportsIn, failuresIn, failures]

/-- A parser that has run on `span` is one more call, and what it has added raises the alarms of the calls
inside it. -/
def Run.Reports (span : Octets) (run : Run Nat) : Prop :=
  ∀ s : Scene, ∃ nodes call,
    (run s).state.tree = s.tree.pushAll nodes ∧ (run s).state.calls = s.calls ++ [call] ∧
    call.span = span ∧ call.result = (run s).outcome ∧ alarmsIn nodes = reportsIn call.inner

namespace Run

variable {span : Octets} {s after : Scene}

theorem reports_recorded {body : Run Nat} (h : ∀ s : Scene, s.Reports (body s).state)
    (parser : Parser) (span : Octets) : (Run.recorded parser span body).Reports span := by
  intro s
  obtain ⟨nodes, calls, htree, hcalls, halarms⟩ := h { s with calls := [] }
  have hrun := recorded_of (body { s with calls := [] }).eq_of parser span
  refine ⟨nodes, ⟨parser, span, (body { s with calls := [] }).outcome, calls⟩, ?_, ?_, rfl, ?_,
    halarms⟩
  · rw [hrun, EStateM.Result.state_of, htree]
  · rw [hrun, EStateM.Result.state_of, hcalls]
    rfl
  · rw [hrun, EStateM.Result.outcome_of]

variable {run : Run Nat} (h : run.Reports span)
include h

theorem Reports.of_ok {n : Nat} (hr : run s = .ok n after) : s.Reports after := by
  obtain ⟨nodes, call, htree, hcalls, -, hresult, halarms⟩ := h s
  rw [hr] at htree hcalls hresult
  refine ⟨nodes, [call], htree, hcalls, ?_⟩
  rw [Call.reportsIn_singleton, hresult, halarms]
  exact (List.append_nil _).symm

theorem Reports.of_error {fault : Fault} (hr : run s = .error fault after) :
    s.Reports (after.emit ((Node.raw span).addFault fault)) := by
  obtain ⟨nodes, call, htree, hcalls, hspan, hresult, halarms⟩ := h s
  rw [hr] at htree hcalls hresult
  refine ⟨nodes ++ [(Node.raw span).addFault fault], [call], ?_, hcalls, ?_⟩
  · rw [← Node.pushAll_pushAll]
    exact congrArg (Node.push · _) htree
  · rw [Call.reportsIn_singleton, hresult, hspan, Node.alarmsIn_append, halarms, Node.alarmsIn_fault]
    rfl

end Run

namespace Dissector

variable {d : Dissector} {invoke : Invoke}

theorem reports_delegate {g : Grammar} {span : Octets} (h : (invoke g.parser span).Reports span) :
    (delegate invoke g span).Moves Scene.Reports := by
  intro s
  unfold delegate
  cases hr : invoke g.parser span (s.descend g.description) with
  | ok n inner => exact (h.of_ok hr).ascend
  | error fault inner => exact (h.of_error hr).ascend

theorem quiet_of_builtIn {schema : Schema} (h : schema ∈ Schema.builtIn) : schema.quiet = true :=
  List.all_eq_true.mp (by decide : Schema.builtIn.all Components.quiet = true) schema h

/-- What a parser adds raises the alarms of the parsers that it has run. Its own fault is still open. -/
theorem reports_runWith (hd : d.Binds Parser.builtIn)
    (h : ∀ p data, p.builtIn → (invoke p data).Reports data) {p : Parser} (hp : p.builtIn)
    (data : Octets) (s : Scene) : s.Reports (runWith d invoke p data s).state := by
  refine Scene.Reports.growth.moves_runWith hd (fun g span hg => ?_) hp.scriptFree ?_ data s
  · exact reports_delegate (h g.parser span hg)
  · rintro schema n rfl hn
    exact Components.quiet_shown (quiet_of_builtIn hp) hn

theorem reports_dispatchVersion
    (h : ∀ {version g}, d.versions.get? version = some g → ∀ span, (invoke g.parser span).Reports span)
    (version : UInt8) (data : Octets) :
    (d.dispatchVersion invoke version data).Moves Scene.Reports := by
  intro s
  unfold dispatchVersion
  split
  · next g hg =>
    cases hr : invoke g.parser data s with
    | ok n after => exact (h hg data).of_ok hr
    | error fault after => exact (h hg data).of_error hr
  · have hversion : s.Reports (s.emit (Node.leaf "protocolVersion" (.unsigned version.toNat))) :=
      .emit (Node.alarmsIn_leaf _ _) s
    exact hversion.trans (.emit (Node.alarmsIn_remark _ _) _)

theorem reports_invoke (hd : d.Binds Parser.builtIn) {p : Parser} (hp : p.builtIn) (data : Octets) :
    (d.invoke p data).Reports data := by
  have hfree : ∀ p : Parser, p.builtIn → p.scriptFree := fun _ => Parser.builtIn.scriptFree
  refine invoke_induction (R := fun data run => run.Reports data) hd hfree ?_ ?_ hp data
  · intro p data fault
    exact Run.reports_recorded (fun s => .of_same rfl rfl) p data
  · intro invoke h p data hp
    exact Run.reports_recorded (reports_runWith hd h hp data) p data

def truncationWarning (config : Config) (size : Nat) : Note :=
  ⟨.warn, s!"PDU of {size} bytes truncated to {config.maxSize}"⟩

theorem alarms_root (config : Config) (size : Nat) (nodes : List Node) :
    let tree := (root config size).pushAll nodes
    tree.alarms =
      (if config.maxSize < size then [(tree, truncationWarning config size)] else []) ++
        alarmsIn nodes := by
  intro tree
  have hchildren : tree.children = nodes := congrArg Node.children (root_pushAll config size nodes)
  have hown : tree.ownAlarms =
      if config.maxSize < size then [(tree, truncationWarning config size)] else [] := by
    have hnotes : tree.notes =
        if config.maxSize < size then [truncationWarning config size] else [] := by
      show (root config size).notes = _
      unfold root
      split <;> rfl
    unfold Node.ownAlarms
    rw [hnotes]
    split <;> rfl
  rw [Node.alarms_eq, hown, hchildren]

end Dissector

end V2x
