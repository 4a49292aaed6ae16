import V2x.Proofs.Dissector.Frame
import V2x.Proofs.Dissector.Steps

/-!
# Parsers only append

Whatever a parser does depends on its octets and on the context, but not on the tree it is given, to which it
only adds nodes (`parsers_append`). It need not know what other parsers do for that: these are handed nodes of
their own, and calls of their own to record.
-/

namespace V2x

/-- The context may be changed in any way. -/
def Context.Free (_ _ : Context) : Prop :=
  True

theorem Context.tracked_free : Context.Tracked Context.Free where
  refl _ := trivial
  trans _ _ := trivial
  restored _ := trivial

open Context (Free tracked_free)

namespace Dissect

theorem framed_context : Framed Free context := by
  intro r c
  refine ⟨.ok c, r, ⟨c, [], []⟩, trivial, ?_⟩
  rintro s rfl
  rw [Scene.change_context]
  rfl

theorem framed_modifyContext (f : Context → Context) : Framed Free (modifyContext f) := by
  intro r c
  refine ⟨.ok (), r, ⟨f c, [], []⟩, trivial, ?_⟩
  rintro s rfl
  simp [modifyContext, Scene.change]

theorem framed_run {α : Type} {act : Run α} (h : act.Framed Free) : Framed Free (run act) := by
  intro r c
  obtain ⟨o, e, hKe, hact⟩ := h c
  refine ⟨o, r, e, hKe, fun s hs => ?_⟩
  unfold Dissect.run
  dsimp only
  rw [hact s hs]
  cases o <;> rfl

theorem framed_field {resolve : Resolver} (h : ∀ slot payload, (resolve slot payload).Framed Free)
    (field : Field) : Framed Free (field.decode resolve) := by
  rw [← field_eq_decode]
  exact (Framed.simulation tracked_free h).field field
    (framed_causeCode tracked_free fun _ _ => trivial)

end Dissect

namespace Dissector

variable {d : Dissector} {invoke : Invoke}

/-- Runs parsers in any way, but records that they have run. -/
def recording (handlers : Invoke) : Invoke := fun p data =>
  Run.recorded p data (handlers p data)

theorem run_eq_recording (d : Dissector) (n : Nat) :
    run d (n + 1) = recording (runWith d (run d n)) := rfl

/-- A parser that was handed octets starts on an empty node and an empty record, so that only the context can
make a difference to it. -/
theorem framed_delegate_recording (handlers : Invoke) (g : Grammar) (span : Octets) :
    (delegate (recording handlers) g span).Framed Free := by
  intro c
  let fresh : Scene := ⟨c, Node.leaf g.description .none, []⟩
  let outcome := (handlers g.parser span fresh).outcome
  let after := (handlers g.parser span fresh).state
  let call : Call := ⟨g.parser, span, outcome, after.calls⟩
  have hfresh : handlers g.parser span fresh = .of outcome after := EStateM.Result.eq_of _
  refine ⟨accounted span outcome,
    ⟨after.context, [after.tree.pushAll (remainder span outcome)], [call]⟩, trivial, ?_⟩
  rintro s rfl
  have hrun : recording handlers g.parser span (s.descend g.description) =
      .of outcome { after with calls := s.calls ++ [call] } :=
    Run.recorded_of (s := s.descend g.description) hfresh g.parser span
  unfold delegate
  rw [hrun]
  cases outcome with
  | ok n =>
    rw [remainder, Node.pushAll_nil]
    rfl
  | error fault => rfl

section

variable (h : ∀ (g : Grammar) (span : Octets), (delegate invoke g span).Framed Free)
include h

theorem framed_dispatchMessage (id : UInt8) (body : Octets) :
    (dispatchMessage d invoke id body).Framed Free := by
  intro c
  unfold dispatchMessage
  cases d.effective? id with
  | none =>
    refine ⟨body.length, ⟨c, [Node.raw body], []⟩, trivial, ?_⟩
    rintro s rfl
    rw [← Scene.emit_eq_change]
  | some g =>
    obtain ⟨n, e, -, hrun⟩ := h g body (c.beginMessage g.name)
    refine ⟨n, e, trivial, ?_⟩
    rintro s rfl
    exact hrun _ rfl

theorem framed_parseMessage (data : Octets) : (parseMessage d invoke data).Framed Free := by
  intro c
  cases hdecode : Header.decode data with
  | error fault =>
    refine ⟨.error fault, ⟨c, [], []⟩, trivial, ?_⟩
    rintro s rfl
    unfold parseMessage
    rw [hdecode, Scene.change_context]
    rfl
  | ok front =>
    obtain ⟨header, body⟩ := front
    obtain ⟨n, e, -, hbody⟩ :=
      framed_dispatchMessage (d := d) h header.messageId body { c with header := some header }
    refine ⟨.ok (Header.size + n), ⟨e.context, headerNode header :: e.nodes, e.calls⟩, trivial, ?_⟩
    rintro s rfl
    rw [parseMessage_of_decode hdecode]
    dsimp only
    rw [hbody _ rfl]
    simp [Scene.emit, Scene.change, Node.push_eq_pushAll]

theorem framed_resolve_free (slot : Slot) (payload : Octets) :
    (resolve d invoke slot payload).Framed Free :=
  framed_resolve tracked_free (fun {_ g} _ span => h g span) slot payload

theorem framed_parseSchema_free (schema : Schema) (data : Octets) :
    (parseSchema d invoke schema data).Framed Free :=
  framed_parseSchema tracked_free schema (.inr fun _ _ => trivial) (fun {_ g} _ span => h g span) data

def framedActions : Actions d d invoke invoke where
  Rel m _ := Dissect.Framed Free m
  pure := Dissect.framed_pure tracked_free
  bind := Dissect.Framed.bind tracked_free
  read _ := Dissect.framed_read tracked_free _
  leaf _ _ := Dissect.framed_emit tracked_free _
  context := Dissect.framed_context
  modifyContext := Dissect.framed_modifyContext
  decode := Dissect.framed_field (framed_resolve_free h)
  dispatchMessage id body := Dissect.framed_surely (framed_dispatchMessage h id body)
  parseMessage data := Dissect.framed_run (framed_parseMessage h data)
  parseSchema schema data := Dissect.framed_run (framed_parseSchema_free h schema data)

theorem framed_runWith_free (p : Parser) (data : Octets) : (runWith d invoke p data).Framed Free := by
  cases p with
  | message => exact framed_parseMessage h data
  | script steps =>
    refine Dissect.Framed.parse ((framedActions h).runSteps steps (.inr fun slot payload => ?_)) data
    exact Dissect.framed_surely (framed_resolve_free h slot payload)
  | _ =>
    refine framed_runWith tracked_free (fun _ _ => trivial) ?_ (fun {_ g} _ span => h g span) data
    trivial

end

theorem framed_runWith_recording (d : Dissector) (handlers : Invoke) (p : Parser) (data : Octets) :
    (runWith d (recording handlers) p data).Framed Free :=
  framed_runWith_free (framed_delegate_recording handlers) p data

theorem framed_invoke_free (d : Dissector) (p : Parser) (data : Octets) :
    (d.invoke p data).Framed Free := by
  obtain ⟨n, hrun⟩ := exists_invoke_eq d p data
  rw [hrun, run_eq_recording]
  exact (framed_runWith_recording d _ p data).recorded p data

end Dissector

/-- A run on one and the same context comes to one and the same end, and puts the same nodes behind the children
of whatever tree it is given. -/
def Run.Appends (run : Run Nat) : Prop :=
  ∀ c : Context, ∃ (outcome : Except Fault Nat) (after : Context) (nodes : List Node),
    ∀ s : Scene, s.context = c →
      (run s).outcome = outcome ∧ (run s).state.context = after ∧
      (run s).state.tree.name = s.tree.name ∧ (run s).state.tree.value = s.tree.value ∧
      (run s).state.tree.notes = s.tree.notes ∧
      (run s).state.tree.children = s.tree.children ++ nodes

theorem Run.Framed.appends {run : Run Nat} (h : run.Framed Free) : run.Appends := by
  intro c
  obtain ⟨outcome, e, -, hrun⟩ := h c
  refine ⟨outcome, e.context, e.nodes, fun s hs => ?_⟩
  rw [hrun s hs, EStateM.Result.outcome_of, EStateM.Result.state_of]
  exact ⟨rfl, rfl, rfl, rfl, rfl, rfl⟩

namespace Dissector

/-- Parsers only append. What a parser comes to, the context it leaves behind and the nodes it adds depend on its
octets and on the context, and not on the tree, of which it changes nothing else. This is so whether or not it
fails, and even where the parsers that it hands octets to do as they like with their own nodes. -/
theorem parsers_append (d : Dissector) (p : Parser) (data : Octets) :
    (d.invoke p data).Appends ∧
    ∀ handlers : Invoke, (runWith d (recording handlers) p data).Appends :=
  ⟨(framed_invoke_free d p data).appends,
    fun handlers => (framed_runWith_recording d handlers p data).appends⟩

end Dissector

end V2x
