import V2x.Proofs.Dissector.Appending
import V2x.Proofs.Dissector.Registered

/-!
# What becomes of the payload of an extension

A payload is always accounted for as a whole, and at most one node is added for it: a remark, its octets, or
what the parser makes of it that is registered for the active region and the slot. No other parser runs, and a
fault of this one goes no further than its node (`resolve_total`).
-/

namespace V2x

/-- Whether or not a parser fails, the node that it was given keeps what it had. -/
def Invoke.Appends (handlers : Invoke) : Prop :=
  ∀ (p : Parser) (span : Octets) (s : Scene),
    ∃ nodes, (handlers p span s).state.tree = s.tree.pushAll nodes

theorem Node.pushAll_leaf (name : String) (nodes : List Node) :
    (leaf name .none).pushAll nodes = { name, children := nodes } := rfl

namespace Dissector

/-- The parsers of a dissector only append, whatever becomes of the payloads in them. -/
theorem appends_runWith (d : Dissector) (handlers : Invoke) :
    Invoke.Appends (runWith d (recording handlers)) := by
  intro p span s
  obtain ⟨outcome, e, -, hrun⟩ := framed_runWith_recording d handlers p span s.context
  refine ⟨e.nodes, ?_⟩
  rw [hrun s rfl, EStateM.Result.state_of]
  rfl

/-- A parser is handed octets once, with an empty node to fill. -/
theorem delegate_of_appends {handlers : Invoke} (h : handlers.Appends) (g : Grammar) (span : Octets)
    (s : Scene) :
    ∃ (outcome : Except Fault Nat) (c : Context) (pushed : List Node) (inner : List Call),
      handlers g.parser span { context := s.context, tree := Node.leaf g.description .none } =
        .of outcome ⟨c, { name := g.description, children := pushed }, inner⟩ ∧
      (delegate (recording handlers) g span s).2 =
        s.change ⟨c, [{ name := g.description, children := pushed ++ remainder span outcome }],
          [⟨g.parser, span, outcome, inner⟩]⟩ := by
  let fresh : Scene := { context := s.context, tree := Node.leaf g.description .none }
  let outcome := (handlers g.parser span fresh).outcome
  let after := (handlers g.parser span fresh).state
  obtain ⟨pushed, htree⟩ := h g.parser span fresh
  have hrun : handlers g.parser span fresh =
      .of outcome ⟨after.context, { name := g.description, children := pushed }, after.calls⟩ := by
    rw [← Node.pushAll_leaf, ← htree]
    exact EStateM.Result.eq_of _
  refine ⟨outcome, after.context, pushed, after.calls, hrun, ?_⟩
  have hrecorded := Run.recorded_of (s := s.descend g.description) hrun g.parser span
  unfold delegate recording
  rw [hrecorded]
  cases outcome with
  | ok n =>
    rw [remainder, List.append_nil]
    rfl
  | error fault => rfl

section

variable {d : Dissector} {invoke : Invoke} {s : Scene} (slot : Slot) (payload : Octets)

theorem resolve_of_skip
    (h : s.context.region.getD .unspecified = .unspecified ∧ d.config.noRegion = .skip) :
    resolve d invoke slot payload s =
      (payload.length, s.change ⟨s.context, if payload = [] then [] else
        [(Node.raw payload).addNote ⟨.note, s!"{slot.name} value without a region is not decoded"⟩],
        []⟩) := by
  unfold resolve
  dsimp only
  rw [if_pos h]
  cases payload with
  | nil => rw [if_pos rfl, Scene.change_context]; rfl
  | cons octet more => rw [if_neg (List.cons_ne_nil octet more), ← Scene.emit_eq_change]; rfl

theorem resolve_of_none
    (h : ¬ (s.context.region.getD .unspecified = .unspecified ∧ d.config.noRegion = .skip))
    (hg : d.extensions.get? ⟨s.context.region.getD .unspecified, slot⟩ = none) :
    resolve d invoke slot payload s =
      (payload.length, s.change ⟨s.context, [Node.raw payload], []⟩) := by
  unfold resolve
  dsimp only
  rw [if_neg h, hg, Scene.emit_eq_change]

theorem resolve_of_some {g : Grammar}
    (h : ¬ (s.context.region.getD .unspecified = .unspecified ∧ d.config.noRegion = .skip))
    (hg : d.extensions.get? ⟨s.context.region.getD .unspecified, slot⟩ = some g) :
    resolve d invoke slot payload s = (payload.length, (delegate invoke g payload s).2) := by
  unfold resolve
  dsimp only
  rw [if_neg h, hg]

end

/-- A payload is accounted for as a whole, and one node at most is added for it, behind whatever is there.
Without a region it is only remarked upon where that is the policy, and its octets are shown where nothing is
registered for its region and its slot. Otherwise just the parser that is registered for these runs, once and
on all of it, and what it adds is shown, behind it the payload with the fault if it fails. -/
theorem resolve_total (d : Dissector) {handlers : Invoke} (h : handlers.Appends) (slot : Slot)
    (payload : Octets) (s : Scene) :
    let region := s.context.region.getD .unspecified
    ∃ (c : Context) (shown : List Node) (calls : List Call),
      resolve d (recording handlers) slot payload s =
        (payload.length, s.change ⟨c, shown, calls⟩) ∧
      shown.length ≤ 1 ∧
      if region = .unspecified ∧ d.config.noRegion = .skip then
        c = s.context ∧ calls = [] ∧
          shown = if payload = [] then [] else
            [(Node.raw payload).addNote
              ⟨.note, s!"{slot.name} value without a region is not decoded"⟩]
      else
        match d.extensions.get? ⟨region, slot⟩ with
        | none => c = s.context ∧ calls = [] ∧ shown = [Node.raw payload]
        | some g =>
          ∃ (outcome : Except Fault Nat) (pushed : List Node) (inner : List Call),
            handlers g.parser payload
                { context := s.context, tree := Node.leaf g.description .none } =
              .of outcome ⟨c, { name := g.description, children := pushed }, inner⟩ ∧
            calls = [⟨g.parser, payload, outcome, inner⟩] ∧
            shown = [{ name := g.description, children := pushed ++ remainder payload outcome }] := by
  intro region
  by_cases hskip : region = .unspecified ∧ d.config.noRegion = .skip
  · refine ⟨_, _, _, resolve_of_skip slot payload hskip, ?_, ?_⟩
    · split
      · exact Nat.zero_le _
      · exact Nat.le_refl _
    · rw [if_pos hskip]
      exact ⟨rfl, rfl, rfl⟩
  · cases hg : d.extensions.get? ⟨region, slot⟩ with
    | none =>
      refine ⟨_, _, _, resolve_of_none slot payload hskip hg, Nat.le_refl _, ?_⟩
      rw [if_neg hskip]
      exact ⟨rfl, rfl, rfl⟩
    | some g =>
      obtain ⟨outcome, c, pushed, inner, hrun, hafter⟩ := delegate_of_appends h g payload s
      have hresolve : resolve d (recording handlers) slot payload s = _ :=
        resolve_of_some slot payload hskip hg
      rw [hafter] at hresolve
      refine ⟨_, _, _, hresolve, Nat.le_refl _, ?_⟩
      rw [if_neg hskip]
      exact ⟨outcome, pushed, inner, hrun, rfl, rfl⟩

/-- One octet is not enough for a position in three dimensions. -/
theorem resolve_total_truncated :
    ∃ d, standard {} = .ok d ∧
      let s : Scene := { context := { region := some .groupC }, tree := Node.leaf "outer" .none }
      let fault : Fault := .incomplete 20 7
      ∃ (c : Context) (pushed : List Node) (inner : List Call),
        resolve d (run d 2) .position3D [0] s =
          (1, s.change ⟨c,
            [{ name := "DSRC Addition Grp C (EU)",
               children := pushed ++ [(Node.raw [0]).addFault fault] }],
            [⟨.schema Schema.GroupC.position3D, [0], .error fault, inner⟩]⟩) := by
  obtain ⟨d, hd⟩ : ∃ d, standard {} = .ok d := ⟨_, rfl⟩
  refine ⟨d, hd, ?_⟩
  intro s fault
  let g : Grammar :=
    ⟨"Position3D-addGrpC", "DSRC Addition Grp C (EU)", .schema Schema.GroupC.position3D⟩
  let fresh : Scene := { context := s.context, tree := Node.leaf g.description .none }
  have hg : d.extensions.get? ⟨.groupC, .position3D⟩ = some g := by
    refine (bound_standard hd (.extension ⟨.groupC, .position3D⟩ g)).mpr ?_
    simp [Registration.standard, Registration.extensions, Registration.groupC, g]
  have houtcome : (runWith d (run d 1) g.parser [0] fresh).outcome = .error fault :=
    eq_of_standard hd (f := fun d => (runWith d (run d 1) g.parser [0] fresh).outcome)
      (by decide +kernel)
  have hregion : ¬ (s.context.region.getD .unspecified = .unspecified ∧ d.config.noRegion = .skip) :=
    fun h => absurd h.1 (by decide)
  obtain ⟨c, shown, calls, hresolve, -, hcase⟩ :=
    resolve_total d (appends_runWith d (runWith d (run d 0))) .position3D [0] s
  rw [if_neg hregion, show s.context.region.getD .unspecified = .groupC from rfl, hg] at hcase
  obtain ⟨outcome, pushed, inner, hrun, rfl, rfl⟩ := hcase
  obtain rfl : outcome = .error fault := by
    rw [← houtcome, ← EStateM.Result.outcome_of outcome, ← hrun]
    rfl
  exact ⟨c, pushed, inner, hresolve⟩

end Dissector

end V2x
