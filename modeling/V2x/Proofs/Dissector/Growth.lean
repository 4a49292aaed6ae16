import V2x.Proofs.Decode.Growth
import V2x.Proofs.Dissector.Frame
import V2x.Proofs.Dissector.Steps

/-!
# Parsers make scenes grow

A relation between earlier and later scenes that handing octets to other parsers keeps is kept by the parsers
themselves (`Growth.moves_runWith`).
-/

namespace V2x.Growth

open Dissector

variable (G : Growth) {d : Dissector} {invoke : Invoke}

/-- The fields of a header are quiet, and so the header is as good as a group that was filled with them. -/
theorem emit_headerNode (s : Scene) (header : Header) : G.Rel s (s.emit (headerNode header)) := by
  let first := (s.descend "ItsPduHeader").emit
    (Node.leaf "protocolVersion" (.unsigned header.version.toNat))
  let second := first.emit (Node.leaf "messageID"
    (.enumerated header.messageId.toNat (MessageFamily.label? header.messageId)))
  have hversion : G.Rel (s.descend "ItsPduHeader") first := G.emit _ (G.leaf _ _)
  have hmessage : G.Rel first second := G.emit _ (G.leaf _ _)
  have hstation : G.Rel second (second.emit (Node.leaf "stationID" (.unsigned header.stationId.toNat))) :=
    G.emit _ (G.leaf _ _)
  exact G.ascend (G.trans (G.trans hversion hmessage) hstation)

section

variable {P : Parser → Prop} (hd : d.Binds P)
  (h : ∀ (g : Grammar) (span : Octets), P g.parser → Surely.Moves G.Rel (delegate invoke g span))
include hd h

theorem moves_resolve (slot : Slot) (payload : Octets) :
    Surely.Moves G.Rel (resolve d invoke slot payload) := by
  intro s
  unfold resolve
  dsimp only
  split
  · split
    · exact G.of_same rfl rfl
    · exact G.emit s (G.remark _ _)
  · split
    · next g hg => exact h g payload (hd.extensions hg) s
    · exact G.emit s (G.leaf _ _)

theorem moves_dispatchMessage (id : UInt8) (body : Octets) :
    Surely.Moves G.Rel (dispatchMessage d invoke id body) := by
  intro s
  unfold dispatchMessage
  split
  · next g hg =>
    let inner : Scene := { s with context := s.context.beginMessage g.name }
    have hbegin : G.Rel s inner := G.of_same rfl rfl
    exact G.trans hbegin (h g body (hd.effective hg) inner)
  · exact G.emit s (G.leaf _ _)

theorem moves_parseMessage (data : Octets) : Run.Moves G.Rel (parseMessage d invoke data) := by
  intro s
  unfold parseMessage
  cases Header.decode data with
  | error fault => exact G.of_same rfl rfl
  | ok front =>
    obtain ⟨header, body⟩ := front
    let inner : Scene :=
      { s.emit (headerNode header) with context := { s.context with header := some header } }
    have hheader : G.Rel s inner := G.trans (G.emit_headerNode s header) (G.of_same rfl rfl)
    exact G.trans hheader (G.moves_dispatchMessage hd h header.messageId body inner)

theorem moves_parseSchema {schema : Schema}
    (hshown : ∀ n, .shown n ∈ Components.operations schema → G.quiet n) (data : Octets) :
    Run.Moves G.Rel (parseSchema d invoke schema data) := by
  intro s
  have hdecode := G.moves_schema (G.moves_resolve hd h) hshown ⟨.ofOctets data, s⟩
  rw [parseSchema, Dissect.parse_of
    (Schema.decode (resolve d invoke) schema ⟨.ofOctets data, s⟩).eq_of, EStateM.Result.state_of]
  exact hdecode

/-- What is shown in place of other components must be quiet, too. -/
theorem moves_runWith {p : Parser} (hp : p.scriptFree)
    (hshown : ∀ schema n, p = .schema schema → .shown n ∈ Components.operations schema → G.quiet n)
    (data : Octets) : Run.Moves G.Rel (runWith d invoke p data) := by
  intro s
  cases p with
  | message => exact G.moves_parseMessage hd h data s
  | schema schema => exact G.moves_parseSchema hd h (fun n => hshown schema n rfl) data s
  | undecoded => exact G.emit s (G.leaf _ _)
  | marker name => exact G.emit s (G.leaf _ _)
  | failing fault => exact G.of_same rfl rfl
  | script steps => exact hp.elim

variable (hquiet : ∀ n, G.quiet n)
include hquiet

def actions : Actions d d invoke invoke where
  Rel m _ := Dissect.Moves G.Rel m
  pure := G.moves_pure
  bind := G.bind
  read _ := G.moves_read _
  leaf := G.moves_leaf
  context := G.moves_of_same fun _ => ⟨rfl, rfl⟩
  modifyContext _ := G.moves_of_same fun _ => ⟨rfl, rfl⟩
  decode _ := G.moves_field (G.moves_resolve hd h) fun n _ => hquiet n
  dispatchMessage id body := G.moves_surely (G.moves_dispatchMessage hd h id body)
  parseMessage data := G.moves_run (G.moves_parseMessage hd h data)
  parseSchema _ data := G.moves_run (G.moves_parseSchema hd h (fun n _ => hquiet n) data)

/-- Where all nodes are quiet, scripts are no exception. -/
theorem moves_runWith_of_quiet (p : Parser) (data : Octets) :
    Run.Moves G.Rel (runWith d invoke p data) := by
  cases p with
  | script steps =>
    intro s
    have hsteps : Dissect.Moves G.Rel (runSteps d invoke steps) :=
      (G.actions hd h hquiet).runSteps steps
        (.inr fun slot payload => G.moves_surely (G.moves_resolve hd h slot payload))
    rw [runWith, Dissect.parse_of (runSteps d invoke steps ⟨.ofOctets data, s⟩).eq_of,
      EStateM.Result.state_of]
    exact hsteps ⟨.ofOctets data, s⟩
  | _ =>
    refine G.moves_runWith hd h ?_ (fun _ n _ _ => hquiet n) data
    trivial

end

end V2x.Growth
