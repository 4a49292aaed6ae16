import V2x.Proofs.Dissector.Frame
import V2x.Proofs.Message.GroupC
import V2x.Proofs.Message.Notification
import V2x.Proofs.Message.StatusMessage

/-!
# Dissecting what has been written

If a decoder recovers the items of a message, its parser shows them and accounts for every octet
that is written for them (`invoke_of_recovers`). So it is with notifications (`invoke_notification`) and
with signal status messages, whose extensions are resolved one by one (`invoke_statusMessage`). What
extensions say in turn is recovered likewise (`invoke_groupC`).
-/

namespace V2x.Dissector

open Per (WriteStep)

theorem consumedOctets_write (steps : List WriteStep) :
    ((Per.Reader.ofOctets (WriteStep.write steps)).advance
      (WriteStep.encodings steps).length).consumedOctets = (WriteStep.write steps).length := by
  obtain ⟨n, hn, hbits⟩ := WriteStep.ofOctets_write steps
  have hlen := congrArg List.length hbits
  rw [Bits.length_ofOctets, List.length_append, List.length_replicate] at hlen
  rw [Per.Reader.consumedOctets_advance]
  omega

theorem parse_of_recovers {resolve : Resolver} {schema : Schema} {items : List Item}
    (h : (schema.decode resolve).Recovers resolve items) (s : Scene) :
    let octets := WriteStep.write (Item.stepsIn items)
    Dissect.parse (schema.decode resolve) octets s =
      .ok octets.length (Item.playIn resolve items s) := by
  intro octets
  obtain ⟨n, -, hbits⟩ := WriteStep.ofOctets_write (Item.stepsIn items)
  have hrest : (Per.Reader.ofOctets octets).rest =
      WriteStep.encodings (Item.stepsIn items) ++ List.replicate n false := by
    rw [Per.Reader.rest_ofOctets, hbits]
  have hdecode := h _ _ s hrest
  rw [← consumedOctets_write]
  exact Dissect.parse_of (o := .ok ()) hdecode

/-- Where there are no extensions, what is shown does not depend on the dissector. -/
theorem invoke_of_recovers (d : Dissector) {schema : Schema} {items : List Item}
    (hfree : schema.extensionFree = true)
    (h : (schema.decode Resolver.silent).Recovers .silent items) (s : Scene) :
    let octets := WriteStep.write (Item.stepsIn items)
    ∃ c, d.invoke (.schema schema) octets s =
      .ok octets.length ⟨c, s.tree.pushAll (Item.nodesIn items),
        s.calls ++ [⟨.schema schema, octets, .ok octets.length, []⟩]⟩ := by
  intro octets
  obtain ⟨c, hplay⟩ := Item.playIn_silent items { s with calls := [] }
  have hparse : ∀ invoke', runWith d invoke' (.schema schema) octets { s with calls := [] } =
      .of (.ok octets.length) (Scene.change { s with calls := [] } ⟨c, Item.nodesIn items, []⟩) := by
    intro invoke'
    have hdecode := Dissect.schema_eq_of_extensionFree hfree (resolve d invoke') .silent
    have hread := parse_of_recovers h { s with calls := [] }
    rwa [hplay, ← hdecode] at hread
  refine ⟨c, ?_⟩
  rw [invoke, run_succ, Run.recorded_of (hparse _)]
  rfl

/-- Every notification is recovered from what is written for it. Its parser accounts for all octets
and adds the notification's fields, with the names and values that it has, in its order. -/
theorem invoke_notification (d : Dissector) (n : Notification) (s : Scene) :
    let octets := WriteStep.write (Item.stepsIn n.items)
    (∃ c, d.invoke (.schema Schema.Denm.schema) octets s =
      .ok octets.length ⟨c, s.tree.pushAll (Item.nodesIn n.items),
        s.calls ++ [⟨.schema Schema.Denm.schema, octets, .ok octets.length, []⟩]⟩) ∧
      Node.entries (Item.nodesIn n.items) = Item.entriesIn n.items :=
  ⟨invoke_of_recovers d (by decide) n.recovers_parts.message s, Item.entries_nodesIn n.items⟩

/-! ## Messages with extensions -/

/-- The parser that a payload is handed to, if there is one for its key. -/
def handed (d : Dissector) : ExtensionKey × Octets → List (Parser × Octets)
  | (key, payload) =>
    if key.region = .unspecified ∧ d.config.noRegion = .skip then []
    else ((d.extensions.get? key).map fun g => (g.parser, payload)).toList

theorem recorded_handed (parser : Parser) (span : Octets) (run : Run Nat) (s : Scene) :
    (Run.recorded parser span run s).state.calls.map Call.handed =
      s.calls.map Call.handed ++ [(parser, span)] := by
  unfold Run.recorded
  split
  · exact List.map_append
  · exact List.map_append

theorem delegate_calls (invoke : Invoke) (g : Grammar) (span : Octets) (s : Scene) :
    (delegate invoke g span s).2.calls =
      (invoke g.parser span (s.descend g.description)).state.calls := by
  unfold delegate
  cases invoke g.parser span (s.descend g.description) <;> rfl

theorem resolve_handsOn (d : Dissector) {n : Nat} (hn : 0 < n) :
    (resolve d (run d n)).HandsOn d.handed := by
  obtain ⟨n, rfl⟩ := Nat.exists_eq_succ_of_ne_zero (Nat.ne_of_gt hn)
  intro slot payload region s hregion
  unfold resolve handed
  rw [hregion, Option.getD_some]
  dsimp only
  split
  · split
    · exact (List.append_nil _).symm
    · exact (List.append_nil _).symm
  · split
    · next g hg =>
      rw [hg, delegate_calls]
      exact recorded_handed g.parser payload _ _
    · next hnone =>
      rw [hnone]
      exact (List.append_nil _).symm

/-- If a decoder recovers items under every resolver, its parser shows them, with whatever the dissector makes
of the extensions in them, and hands the payload of each to the parser for its region and its slot. -/
theorem invoke_of_recovers_resolving (d : Dissector) {schema : Schema} {items : List Item}
    (h : ∀ resolve, (schema.decode resolve).Recovers resolve items) (s : Scene) :
    let octets := WriteStep.write (Item.stepsIn items)
    let after := Item.playIn (resolve d (run d (octets.length + scriptDepth))) items { s with calls := [] }
    d.invoke (.schema schema) octets s = .ok octets.length { after with
      calls := s.calls ++ [⟨.schema schema, octets, .ok octets.length, after.calls⟩] } ∧
      (∃ nodes, after.tree = s.tree.pushAll nodes ∧ Dissect.Alike nodes (Item.nodesIn items)) ∧
      after.calls.map Call.handed = (Item.requestsIn items).flatMap d.handed := by
  intro octets after
  have hparse : runWith d (run d (octets.length + scriptDepth)) (.schema schema) octets
      { s with calls := [] } = .of (.ok octets.length) after :=
    parse_of_recovers (h _) { s with calls := [] }
  have hdepth : 0 < octets.length + scriptDepth := Nat.add_pos_right _ (by decide)
  refine ⟨?_, Item.playIn_alike (resolve_appends d _) items _,
    Item.playIn_handed (resolve_handsOn d hdepth) items _⟩
  rw [invoke, run_succ, Run.recorded_of hparse]
  rfl

/-- Every signal status message is recovered from what is written for it, whatever the tables and the
policy. Its parser accounts for all octets and shows the message's fields, with the names and values that it
has, in its order. The payload of each extension goes unchanged to the parser for its region and the slot
of its level. -/
theorem invoke_statusMessage (d : Dissector) (m : StatusMessage) (s : Scene) :
    let octets := WriteStep.write (Item.stepsIn m.items)
    let resolver := resolve d (run d (octets.length + scriptDepth))
    let after := Item.playIn resolver m.items { s with calls := [] }
    d.invoke (.schema Schema.Ssem.schema) octets s = .ok octets.length { after with
      calls := s.calls ++ [⟨.schema Schema.Ssem.schema, octets, .ok octets.length, after.calls⟩] } ∧
      (∃ nodes, after.tree = s.tree.pushAll nodes ∧ Dissect.Alike nodes (Item.nodesIn m.items)) ∧
      Node.entries (Item.nodesIn m.items) = Item.entriesIn m.items ∧
      after.calls.map Call.handed = (Item.requestsIn m.items).flatMap d.handed := by
  intro octets resolver after
  obtain ⟨hok, htree, hhanded⟩ :=
    invoke_of_recovers_resolving d (fun _ => m.recovers_parts.message) s
  exact ⟨hok, htree, Item.entries_nodesIn m.items, hhanded⟩

/-- Whatever one of the extensions with a grammar says is recovered from what is written for it, whatever the
tables and the policy. Its parser accounts for all octets and shows just what has been written, in its order,
roots of enumerations with their labels and additions to them without. An extension inside it, in place of a
node offset, goes unchanged to the parser for its region. -/
theorem invoke_groupC (d : Dissector) (g : GroupC) (s : Scene) :
    let octets := WriteStep.write (Item.stepsIn g.items)
    let resolver := resolve d (run d (octets.length + scriptDepth))
    let after := Item.playIn resolver g.items { s with calls := [] }
    d.invoke (.schema g.schema) octets s = .ok octets.length { after with
      calls := s.calls ++ [⟨.schema g.schema, octets, .ok octets.length, after.calls⟩] } ∧
      (∃ nodes, after.tree = s.tree.pushAll nodes ∧ Dissect.Alike nodes (Item.nodesIn g.items)) ∧
      Node.entries (Item.nodesIn g.items) = Item.entriesIn g.items ∧
      after.calls.map Call.handed = (Item.requestsIn g.items).flatMap d.handed := by
  intro octets resolver after
  obtain ⟨hok, htree, hhanded⟩ :=
    invoke_of_recovers_resolving d (fun _ => g.recovers_parts.message) s
  exact ⟨hok, htree, Item.entries_nodesIn g.items, hhanded⟩

end V2x.Dissector
