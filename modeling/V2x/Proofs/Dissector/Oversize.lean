import V2x.Proofs.Dissector.Appending
import V2x.Proofs.Dissector.Reports

/-!
# Messages that are too long

Of a message that is too long only the front is looked at. Parsers do not see the warning about that, since they
do not look at the tree they are given: what they make of the message is what they make of its front
(`dispatch_oversized`).
-/

namespace V2x.Dissector

open Context (Free)

theorem framed_dispatchVersion {d : Dissector} {invoke : Invoke} {version : UInt8} {data : Octets}
    (h : ∀ {g}, d.versions.get? version = some g → (invoke g.parser data).Framed Free) :
    (d.dispatchVersion invoke version data).Framed Free := by
  intro c
  unfold dispatchVersion
  cases hg : d.versions.get? version with
  | none =>
    refine ⟨data.length, ⟨c, [Node.leaf "protocolVersion" (.unsigned version.toNat),
      (Node.raw data).addNote ⟨.note, s!"Unsupported protocol version {version}"⟩], []⟩, trivial, ?_⟩
    rintro s rfl
    simp [Scene.emit_eq_change, Scene.Change.andThen]
  | some g =>
    obtain ⟨o, e, -, hrun⟩ := h hg c
    refine ⟨accounted data o, ⟨e.context, e.nodes ++ remainder data o, e.calls⟩, trivial,
      fun s hs => ?_⟩
    dsimp only
    rw [hrun s hs]
    cases o with
    | ok n =>
      rw [remainder, List.append_nil]
      rfl
    | error fault =>
      simp [remainder, accounted, Scene.emit_eq_change, Scene.Change.andThen]

theorem root_of_lt {config : Config} {size : Nat} (h : config.maxSize < size) :
    root config size = (Node.leaf protocolName .none).addNote (truncationWarning config size) := by
  unfold root
  exact if_pos h

theorem root_of_le {config : Config} {size : Nat} (h : size ≤ config.maxSize) :
    root config size = Node.leaf protocolName .none := by
  unfold root
  exact if_neg (Nat.not_lt.mpr h)

/-- Messages with the same front differ only in the node that is filled. -/
theorem dispatch_of_front (d : Dissector) (version : UInt8) (rest : Octets) :
    ∃ (n : Nat) (e : Scene.Change), ∀ pdu : Octets, pdu.take d.config.maxSize = version :: rest →
      d.dispatch pdu = ⟨(root d.config pdu.length).pushAll e.nodes, n, e.context.header,
        e.context.grammar, e.calls⟩ := by
  have hframed : (d.dispatchVersion d.invoke version (version :: rest)).Framed Free :=
    framed_dispatchVersion fun _ => framed_invoke_free d _ _
  obtain ⟨n, e, -, hrun⟩ := hframed {}
  refine ⟨n, e, fun pdu hdata => ?_⟩
  rw [dispatch_of_take_cons hdata, hrun _ rfl]
  rfl

/-- A message that is too long comes to what its front comes to: as much is accounted for, header and grammar are
the same, the same parsers have run, and the tree differs only in the warning, the first note of its root. -/
theorem dispatch_oversized (d : Dissector) {pdu : Octets} (h : d.config.maxSize < pdu.length) :
    let whole := d.dispatch pdu
    let front := d.dispatch (pdu.take d.config.maxSize)
    let warning := truncationWarning d.config pdu.length
    whole.consumed = front.consumed ∧ whole.header = front.header ∧ whole.grammar = front.grammar ∧
      whole.calls = front.calls ∧ warning.severity = .warn ∧
      whole.tree = { front.tree with notes := warning :: front.tree.notes } := by
  have hcut : (pdu.take d.config.maxSize).take d.config.maxSize = pdu.take d.config.maxSize := by
    rw [List.take_take, Nat.min_self]
  have hwhole := root_of_lt h
  have hfront : root d.config (pdu.take d.config.maxSize).length = Node.leaf protocolName .none :=
    root_of_le (List.length_take_le _ _)
  cases hdata : pdu.take d.config.maxSize with
  | nil =>
    rw [hdata] at hcut hfront
    rw [dispatch_of_take_nil hdata, dispatch_of_take_nil hcut, hwhole, hfront]
    exact ⟨rfl, rfl, rfl, rfl, rfl, rfl⟩
  | cons version rest =>
    obtain ⟨n, e, hrun⟩ := dispatch_of_front d version rest
    rw [hdata] at hcut hfront
    rw [hrun pdu hdata, hrun _ hcut, hwhole, hfront]
    exact ⟨rfl, rfl, rfl, rfl, rfl, rfl⟩

/-- A message of 16 octets with an unknown identifier, of which 8 are looked at. -/
theorem dispatch_oversized_unknown :
    ∃ d, standard { maxSize := 8 } = .ok d ∧
      let pdu : Octets := [2, 99, 0, 0, 0, 1] ++ List.replicate 10 238
      let whole := d.dispatch pdu
      let front := d.dispatch (pdu.take d.config.maxSize)
      whole.consumed = 8 ∧ whole.consumed = front.consumed ∧ whole.header = front.header ∧
        whole.grammar = front.grammar ∧
        whole.tree = { front.tree with
          notes := ⟨.warn, "PDU of 16 bytes truncated to 8"⟩ :: front.tree.notes } := by
  obtain ⟨d, hd⟩ : ∃ d, standard { maxSize := 8 } = .ok d := ⟨_, rfl⟩
  have hconfig : d.config = { maxSize := 8 } := config_standard hd
  refine ⟨d, hd, ?_⟩
  intro pdu whole front
  have hlong : d.config.maxSize < pdu.length := by
    rw [hconfig]
    decide
  have hconsumed : whole.consumed = 8 :=
    eq_of_standard hd (f := fun d => (d.dispatch pdu).consumed) (by decide +kernel)
  obtain ⟨hsame, hheader, hgrammar, -, -, htree⟩ := dispatch_oversized d hlong
  have hwarning : truncationWarning d.config pdu.length = ⟨.warn, "PDU of 16 bytes truncated to 8"⟩ := by
    rw [hconfig]
    decide +kernel
  rw [hwarning] at htree
  exact ⟨hconsumed, hsame, hheader, hgrammar, htree⟩

end V2x.Dissector
