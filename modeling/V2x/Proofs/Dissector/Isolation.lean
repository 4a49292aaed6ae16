import V2x.Per.Step
import V2x.Proofs.Decode.Isolation
import V2x.Proofs.Dissector.Registered

/-!
# What extensions cannot reach

The parsers bound to the extensions of the standard dissector leave the context as it was. Whatever they
make of the content of an extension therefore stays in its node: the result of decoding a status message,
the context and every field outside extensions are the same for any other content of the same length
(`invoke_ssem_alike`).
-/

namespace V2x

theorem Node.prune_pushAll {a b : List Node} (h : Dissect.Alike a b) (n : Node) :
    (n.pushAll a).prune = (n.pushAll b).prune := by
  obtain ⟨name, value, notes, children⟩ := n
  unfold Dissect.Alike at h
  simp only [Node.pushAll, Node.prune, Node.pruneAll_append, h]

namespace Dissector

variable {d : Dissector}

theorem framed_run_eq (hd : d.ExtensionsCauseFree) (n : Nat) {schema : Schema}
    (h : schema.causeFree = true) (data : Octets) :
    (run d n (.schema schema) data).Framed Eq := by
  induction n generalizing schema data with
  | zero =>
    intro c
    refine ⟨.error (.unsupported "nested parser"), ⟨c, [], []⟩, rfl, ?_⟩
    rintro s rfl
    rw [Scene.change_context]
    rfl
  | succ n ih =>
    refine (framed_parseSchema Context.tracked_eq schema (.inl h) ?_ data).recorded _ data
    intro key g hg span
    obtain ⟨schema', hparser, hfree⟩ := hd hg
    refine framed_delegate ?_
    rw [hparser]
    exact ih hfree span

theorem framed_resolve_eq (hd : d.ExtensionsCauseFree) (slot : Slot) (payload : Octets) :
    (resolve d d.invoke slot payload).Framed Eq := by
  refine framed_resolve Context.tracked_eq ?_ slot payload
  intro key g hg span
  obtain ⟨schema, hparser, hfree⟩ := hd hg
  refine framed_delegate ?_
  rw [hparser]
  exact framed_run_eq hd _ hfree span

/-- Octets that differ in the content of extensions only come to the same. -/
theorem invoke_schema_alike (hd : d.ExtensionsCauseFree) (hfree : d.Binds Parser.scriptFree)
    {schema : Schema} (hschema : schema.causeFree = true) {a b : Octets}
    (hlen : a.length = b.length)
    (hdiff : ∀ i < 8 * a.length, (Bits.ofOctets a)[i]? ≠ (Bits.ofOctets b)[i]? →
      (schema.payloadBits a)[i]? = some true) (s : Scene) :
    let first := d.invoke (.schema schema) a s
    let second := d.invoke (.schema schema) b s
    first.outcome = second.outcome ∧ first.state.context = second.state.context ∧
      first.state.tree.prune = second.state.tree.prune := by
  have halike : (Per.Reader.ofOctets a).AlikeBut (schema.payloadBits a) (.ofOctets b) := by
    refine ⟨?_, fun i hi => ?_⟩
    · rw [← Per.Reader.length_rest, ← Per.Reader.length_rest, Per.Reader.rest_ofOctets,
        Per.Reader.rest_ofOctets, Bits.length_ofOctets, Bits.length_ofOctets, hlen]
    · rw [Per.Reader.rest_ofOctets, Per.Reader.rest_ofOctets]
      rcases Nat.lt_or_ge i (8 * a.length) with h | h
      · by_cases heq : (Bits.ofOctets a)[i]? = (Bits.ofOctets b)[i]?
        · exact heq.symm
        · rw [hdiff i h heq] at hi
          cases hi
      · rw [List.getElem?_eq_none (by rw [Bits.length_ofOctets, ← hlen]; exact h),
          List.getElem?_eq_none (by rw [Bits.length_ofOctets]; exact h)]
  obtain ⟨k, hreader, -, hruns⟩ :=
    Dissect.isolated_schema (framed_resolve_eq hd) hschema (Per.Reader.ofOctets a)
  obtain ⟨e, f, hcontext, hnodes, hrun⟩ := hruns _ s.context halike
  obtain ⟨ha, hb⟩ := hrun { s with calls := [] } rfl
  have hfirst := invoke_schema_of hfree ha
  have hsecond := invoke_schema_of hfree hb
  have hconsumed : ((Per.Reader.ofOctets b).advance k).consumedOctets =
      ((Per.Reader.ofOctets a).advance k).consumedOctets := rfl
  rw [hconsumed] at hsecond
  dsimp only at hfirst hsecond ⊢
  rw [hfirst, hsecond]
  simp only [EStateM.Result.outcome_of, EStateM.Result.state_of, true_and]
  exact ⟨hcontext.symm, Node.prune_pushAll hnodes s.tree⟩

/-- Whatever an extension holds, it changes neither the result of decoding a status message nor the
context, and shows nowhere but in its own node. -/
theorem invoke_ssem_alike {config : Config} (hd : standard config = .ok d) {a b : Octets}
    (hlen : a.length = b.length)
    (hdiff : ∀ i < 8 * a.length, (Bits.ofOctets a)[i]? ≠ (Bits.ofOctets b)[i]? →
      (Schema.payloadBits Schema.Ssem.schema a)[i]? = some true) (s : Scene) :
    let first := d.invoke (.schema Schema.Ssem.schema) a s
    let second := d.invoke (.schema Schema.Ssem.schema) b s
    first.outcome = second.outcome ∧ first.state.context = second.state.context ∧
      first.state.tree.prune = second.state.tree.prune :=
  invoke_schema_alike (causeFree_standard hd)
    ((plain_standard hd).imp fun _ => Parser.plain.scriptFree) (by decide) hlen hdiff s

def statusWith (payload : Octets) : Octets :=
  Per.WriteStep.write
    [ .bits 0 4, .constrained 1000 0 65535, .constrained 1 1 32,
      .bits 0 2, .constrained 7 0 127, .bits 0 1, .constrained 300 0 65535, .constrained 1 1 32,
      .bits 1 7, .index 0 3 true, .constrained 5 0 255, .index 4 8 true,
      .constrained 1 1 4, .bits 3 8, .openType payload ]

theorem invoke_ssem_alike_statusWith :
    ∃ d, standard {} = .ok d ∧
      let scene : Scene := { tree := Node.leaf "SSEM" .none }
      let first := d.invoke (.schema Schema.Ssem.schema) (statusWith [0]) scene
      let second := d.invoke (.schema Schema.Ssem.schema) (statusWith [255]) scene
      first.outcome = second.outcome ∧ first.state.context = second.state.context ∧
        first.state.tree.prune = second.state.tree.prune := by
  obtain ⟨d, hd⟩ : ∃ d, standard {} = .ok d := ⟨_, rfl⟩
  exact ⟨d, hd, invoke_ssem_alike hd (by decide +kernel) (by decide +kernel) _⟩

end Dissector

end V2x
