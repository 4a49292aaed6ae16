import V2x.Dissector.Dispatch
import V2x.Proofs.Decode.Frame
import V2x.Proofs.Dissector.Depth

/-!
# What a parser leaves alone

A parser that neither reads a header nor runs a script adds nodes and calls behind those already there,
and keeps the header and the grammar of the context (`framed_run`).
-/

namespace V2x

/-- Neither the parser of whole messages nor a script. -/
def Parser.plain : Parser → Prop
  | .message => False
  | .script _ => False
  | _ => True

theorem Parser.plain.scriptFree {p : Parser} (h : p.plain) : p.scriptFree := by
  cases p with
  | script steps => exact h
  | _ => trivial

/-- Contexts of one message: their regions and causes may differ. -/
def Context.SameMessage (c d : Context) : Prop :=
  d.header = c.header ∧ d.grammar = c.grammar

theorem Context.tracked_sameMessage : Context.Tracked Context.SameMessage where
  refl _ := ⟨rfl, rfl⟩
  trans h h' := ⟨h'.1.trans h.1, h'.2.trans h.2⟩
  restored h := h

namespace Run

variable {K : Context → Context → Prop}

theorem recorded_of {run : Run Nat} {s after : Scene} {o : Except Fault Nat}
    (h : run { s with calls := [] } = .of o after) (parser : Parser) (span : Octets) :
    Run.recorded parser span run s =
      .of o { after with calls := s.calls ++ [⟨parser, span, o, after.calls⟩] } := by
  unfold Run.recorded
  rw [h]
  cases o <;> rfl

theorem Framed.recorded {run : Run Nat} (h : run.Framed K) (parser : Parser) (span : Octets) :
    (Run.recorded parser span run).Framed K := by
  intro c
  obtain ⟨o, e, hKe, hrun⟩ := h c
  refine ⟨o, { e with calls := [⟨parser, span, o, e.calls⟩] }, hKe, fun s hs => ?_⟩
  exact recorded_of (hrun { s with calls := [] } hs) parser span

end Run

namespace Dissect

variable {K : Context → Context → Prop}

theorem parse_of {body : Dissect Unit} {data : Octets} {s after : Scene} {o : Except Fault Unit}
    {r : Per.Reader} (h : body ⟨Per.Reader.ofOctets data, s⟩ = .of o ⟨r, after⟩) :
    parse body data s = .of (o.map fun _ => r.consumedOctets) after := by
  unfold Dissect.parse
  rw [h]
  cases o <;> rfl

theorem Framed.parse {body : Dissect Unit} (h : Framed K body) (data : Octets) :
    (parse body data).Framed K := by
  intro c
  obtain ⟨o, r, e, hKe, hrun⟩ := h (Per.Reader.ofOctets data) c
  exact ⟨o.map fun _ => r.consumedOctets, e, hKe, fun s hs => parse_of (hrun s hs)⟩

end Dissect

namespace Dissector

open Context (SameMessage)

variable {d : Dissector} {invoke : Invoke} {K : Context → Context → Prop}

/-- The octets of `span` that a parser has accounted for; after a fault it is all of them. -/
def accounted (span : Octets) : Except Fault Nat → Nat
  | .ok n => n
  | .error _ => span.length

/-- What is shown after the nodes of a parser that was handed `span`. -/
def remainder (span : Octets) : Except Fault Nat → List Node
  | .ok _ => []
  | .error fault => [(Node.raw span).addFault fault]

theorem delegate_of {g : Grammar} {span : Octets} {s : Scene} {o : Except Fault Nat}
    {e : Scene.Change} (h : ∀ s' : Scene, s'.context = s.context →
      invoke g.parser span s' = .of o (s'.change e)) :
    delegate invoke g span s =
      (accounted span o, s.change ⟨e.context, [(Node.leaf g.description .none).pushAll
        (e.nodes ++ remainder span o)], e.calls⟩) := by
  unfold delegate
  rw [h (s.descend g.description) rfl]
  cases o with
  | ok n =>
    rw [remainder, List.append_nil]
    rfl
  | error fault => simp [remainder, accounted, Scene.emit_eq_change, Scene.ascend_change_descend,
      Scene.Change.andThen]

theorem framed_delegate {g : Grammar} {span : Octets} (h : (invoke g.parser span).Framed K) :
    (delegate invoke g span).Framed K := by
  intro c
  obtain ⟨o, e, hKe, hrun⟩ := h c
  refine ⟨accounted span o, ⟨e.context, [(Node.leaf g.description .none).pushAll
    (e.nodes ++ remainder span o)], e.calls⟩, hKe, ?_⟩
  intro s hs
  exact delegate_of fun s' hs' => hrun s' (hs'.trans hs)

theorem framed_resolve (hK : Context.Tracked K)
    (h : ∀ {key g}, d.extensions.get? key = some g → ∀ span, (delegate invoke g span).Framed K)
    (slot : Slot) (payload : Octets) : (resolve d invoke slot payload).Framed K := by
  intro c
  by_cases hskip : c.region.getD .unspecified = .unspecified ∧ d.config.noRegion = .skip
  · refine ⟨payload.length, ⟨c, if payload.isEmpty then [] else
      [(Node.raw payload).addNote ⟨.note, s!"{slot.name} value without a region is not decoded"⟩],
      []⟩, hK.refl c, ?_⟩
    rintro s rfl
    unfold resolve
    dsimp only
    rw [if_pos hskip]
    split
    · rw [Scene.change_context]
    · rw [Scene.emit_eq_change]
  · cases hg : d.extensions.get? ⟨c.region.getD .unspecified, slot⟩ with
    | none =>
      refine ⟨payload.length, ⟨c, [Node.raw payload], []⟩, hK.refl c, ?_⟩
      rintro s rfl
      unfold resolve
      dsimp only
      rw [if_neg hskip, hg, Scene.emit_eq_change]
    | some g =>
      obtain ⟨n, e, hKe, hrun⟩ := h hg payload c
      refine ⟨payload.length, e, hKe, ?_⟩
      rintro s rfl
      unfold resolve
      dsimp only
      rw [if_neg hskip, hg]
      dsimp only
      rw [hrun s rfl]

theorem delegate_tree (invoke : Invoke) (g : Grammar) (span : Octets) (s : Scene) :
    ∃ node, (delegate invoke g span s).2.tree = s.tree.push node := by
  unfold delegate
  split
  · exact ⟨_, rfl⟩
  · exact ⟨_, rfl⟩

theorem resolve_appends (d : Dissector) (invoke : Invoke) : (resolve d invoke).Appends := by
  intro slot payload s
  unfold resolve
  dsimp only
  split
  · split
    · exact ⟨[], (Node.pushAll_nil _).symm⟩
    · exact ⟨_, Node.push_eq_pushAll _ _⟩
  · split
    · next g _ =>
      obtain ⟨node, hnode⟩ := delegate_tree invoke g payload s
      exact ⟨[node], hnode.trans (Node.push_eq_pushAll _ _)⟩
    · exact ⟨_, Node.push_eq_pushAll _ _⟩

theorem framed_parseSchema (hK : Context.Tracked K) (schema : Schema)
    (hcause : schema.causeFree = true ∨ ∀ (c : Context) code, K c { c with cause := some code })
    (h : ∀ {key g}, d.extensions.get? key = some g → ∀ span, (delegate invoke g span).Framed K)
    (data : Octets) : (parseSchema d invoke schema data).Framed K := by
  exact (Dissect.framed_schema hK (framed_resolve hK h) schema hcause).parse data

theorem framed_runWith (hK : Context.Tracked K)
    (hcause : ∀ (c : Context) code, K c { c with cause := some code }) {p : Parser} (hp : p.plain)
    (h : ∀ {key g}, d.extensions.get? key = some g → ∀ span, (delegate invoke g span).Framed K)
    (data : Octets) : (runWith d invoke p data).Framed K := by
  cases p with
  | message => exact hp.elim
  | script steps => exact hp.elim
  | schema schema => exact framed_parseSchema hK schema (.inr hcause) h data
  | undecoded =>
    intro c
    refine ⟨.ok data.length, ⟨c, [Node.raw data], []⟩, hK.refl c, ?_⟩
    rintro s rfl
    rw [← Scene.emit_eq_change]
    rfl
  | marker name =>
    intro c
    refine ⟨.ok data.length, ⟨c, [Node.leaf name (.unsigned data.length)], []⟩, hK.refl c, ?_⟩
    rintro s rfl
    rw [← Scene.emit_eq_change]
    rfl
  | failing fault =>
    intro c
    refine ⟨.error fault, ⟨c, [], []⟩, hK.refl c, ?_⟩
    rintro s rfl
    rw [Scene.change_context]
    rfl

theorem framed_run (hd : d.Binds Parser.plain) (n : Nat) {p : Parser} (hp : p.plain)
    (data : Octets) : (run d n p data).Framed SameMessage := by
  induction n generalizing p data with
  | zero =>
    intro c
    refine ⟨.error (.unsupported "nested parser"), ⟨c, [], []⟩, ⟨rfl, rfl⟩, ?_⟩
    rintro s rfl
    rw [Scene.change_context]
    rfl
  | succ n ih =>
    have hrun := framed_runWith Context.tracked_sameMessage (fun _ _ => ⟨rfl, rfl⟩) hp
      (fun hg span => framed_delegate (ih (hd.extensions hg) span)) data
    exact hrun.recorded p data

theorem invoke_schema_of (hd : d.Binds Parser.scriptFree) {schema : Schema} {data : Octets}
    {s after : Scene} {o : Except Fault Unit} {r : Per.Reader}
    (h : Schema.decode (resolve d d.invoke) schema
      ⟨Per.Reader.ofOctets data, { s with calls := [] }⟩ = .of o ⟨r, after⟩) :
    d.invoke (.schema schema) data s =
      let result := o.map fun _ => r.consumedOctets
      .of result { after with
        calls := s.calls ++ [⟨.schema schema, data, result, after.calls⟩] } := by
  rw [invoke_eq hd (p := .schema schema) trivial]
  exact Run.recorded_of (Dissect.parse_of h) _ data

theorem framed_invoke (hd : d.Binds Parser.plain) {p : Parser} (hp : p.plain) (data : Octets) :
    (d.invoke p data).Framed SameMessage :=
  framed_run hd _ hp data

end Dissector

end V2x
