import V2x.Proofs.Dissector.Registered

/-!
# What is shown of a message

The body of a message goes to the grammar in effect for its identifier, and to nothing else. Whatever
becomes of it there stays under one node beside the header, and is accounted for as a whole if it
fails (`dispatch_message`).
-/

namespace V2x

/-- The header in the first six octets. The station identifier has its most significant octet first. -/
def Header.front (data : Octets) : Header where
  version := data.getD 0 0
  messageId := data.getD 1 0
  stationId := UInt32.ofNat
    (2 ^ 24 * (data.getD 2 0).toNat + 2 ^ 16 * (data.getD 3 0).toNat +
      2 ^ 8 * (data.getD 4 0).toNat + (data.getD 5 0).toNat)

theorem Header.decode_of_le {data : Octets} (h : Header.size ≤ data.length) :
    Header.decode data = .ok (Header.front data, data.drop Header.size) := by
  match data, h with
  | version :: id :: a :: b :: c :: e :: body, _ =>
    have hstation : Octets.toNat [a, b, c, e] =
        2 ^ 24 * a.toNat + 2 ^ 16 * b.toNat + 2 ^ 8 * c.toNat + e.toNat := by
      simp only [Octets.toNat, List.foldl_cons, List.foldl_nil]
      omega
    show Except.ok (Header.mk version id (UInt32.ofNat (Octets.toNat [a, b, c, e])), body) = _
    rw [hstation]
    rfl

/-- In every scene with the context the run comes to the outcome, adds the nodes and makes the
calls. -/
def Run.Adds (run : Run Nat) (context : Context) (outcome : Except Fault Nat) (nodes : List Node)
    (calls : List Call) : Prop :=
  ∀ s : Scene, s.context = context →
    ∃ after : Context, run s = .of outcome ⟨after, s.tree.pushAll nodes, s.calls ++ calls⟩

namespace Dissector

variable {d : Dissector}

theorem root_pushAll (config : Config) (size : Nat) (nodes : List Node) :
    (root config size).pushAll nodes = { root config size with children := nodes } := by
  have hroot : (root config size).children = [] := by
    unfold root
    split <;> rfl
  rw [Node.pushAll, hroot, List.nil_append]

theorem dispatchMessage_of_none {id : UInt8} (h : d.effective? id = none) (invoke : Invoke)
    (body : Octets) (s : Scene) :
    dispatchMessage d invoke id body s = (body.length, s.emit (Node.raw body)) := by
  unfold dispatchMessage
  rw [h]

theorem dispatchMessage_of_some {id : UInt8} {g : Grammar} (h : d.effective? id = some g)
    (invoke : Invoke) (body : Octets) (s : Scene) :
    dispatchMessage d invoke id body s =
      delegate invoke g body { s with context := s.context.beginMessage g.name } := by
  unfold dispatchMessage
  rw [h]

theorem invoke_message_of_le (hd : d.Binds Parser.scriptFree) {data : Octets}
    (h : Header.size ≤ data.length) (s : Scene) :
    d.invoke .message data s =
      let header := Header.front data
      let body := dispatchMessage d d.invoke header.messageId (data.drop Header.size)
        ⟨{ s.context with header := some header }, s.tree.push (headerNode header), []⟩
      .ok (Header.size + body.1) { body.2 with
        calls := s.calls ++ [⟨.message, data, .ok (Header.size + body.1), body.2.calls⟩] } := by
  have hdecode := Header.decode_of_le h
  rw [invoke_eq hd (p := .message) trivial]
  unfold Run.recorded
  simp only [runWith, parseMessage, hdecode]
  rfl

theorem dispatchVersion_congr {left right : Invoke} {version : UInt8} {data : Octets}
    (h : ∀ {g}, d.versions.get? version = some g → left g.parser data = right g.parser data) :
    d.dispatchVersion left version data = d.dispatchVersion right version data := by
  funext s
  unfold dispatchVersion
  split
  · next g hg => rw [h hg]
  · rfl

theorem dispatchVersion_of_ok {invoke : Invoke} {version : UInt8} {g : Grammar} {data : Octets}
    {s after : Scene} {n : Nat} (hversion : d.versions.get? version = some g)
    (hrun : invoke g.parser data s = .ok n after) :
    d.dispatchVersion invoke version data s = (n, after) := by
  unfold dispatchVersion
  rw [hversion]
  dsimp only
  rw [hrun]

theorem dispatch_of_take_nil {pdu : Octets} (h : pdu.take d.config.maxSize = []) :
    d.dispatch pdu =
      ⟨(root d.config pdu.length).addFault (.incomplete 8 0), 0, none, none, []⟩ := by
  unfold dispatch
  rw [h]

theorem dispatch_of_take_cons {pdu rest : Octets} {version : UInt8}
    (h : pdu.take d.config.maxSize = version :: rest) :
    d.dispatch pdu =
      let after := d.dispatchVersion d.invoke version (version :: rest)
        { tree := root d.config pdu.length }
      ⟨after.2.tree, after.1, after.2.context.header, after.2.context.grammar, after.2.calls⟩ := by
  unfold dispatch
  rw [h]

theorem dispatch_of_ok {pdu data : Octets} {version : UInt8} {g : Grammar} {n : Nat}
    {after : Scene} (hdata : pdu.take d.config.maxSize = data) (hhead : data.head? = some version)
    (hversion : d.versions.get? version = some g)
    (hrun : d.invoke g.parser data { tree := root d.config pdu.length } = .ok n after) :
    d.dispatch pdu =
      ⟨after.tree, n, after.context.header, after.context.grammar, after.calls⟩ := by
  obtain ⟨rest, rfl⟩ := List.head?_eq_some_iff.mp hhead
  rw [dispatch_of_take_cons hdata, dispatchVersion_of_ok hversion hrun]

theorem dispatch_of_body (hd : d.Binds Parser.scriptFree) {pdu data : Octets} {g : Grammar}
    {n : Nat} {e : Scene.Change} (hdata : pdu.take d.config.maxSize = data)
    (hlen : Header.size ≤ data.length)
    (hversion : d.versions.get? (Header.front data).version = some g)
    (hparser : g.parser = .message)
    (hbody : ∀ s : Scene, s.context = { header := some (Header.front data) } →
      dispatchMessage d d.invoke (Header.front data).messageId
        (data.drop Header.size) s = (n, s.change e)) :
    d.dispatch pdu =
      { tree := { root d.config pdu.length with
          children := headerNode (Header.front data) :: e.nodes }
        consumed := Header.size + n
        header := e.context.header
        grammar := e.context.grammar
        calls := [⟨.message, data, .ok (Header.size + n), e.calls⟩] } := by
  have hhead : data.head? = some (Header.front data).version := by
    cases data with
    | nil => exact absurd hlen (by decide)
    | cons version rest => rfl
  have hrun := invoke_message_of_le hd hlen
    { tree := root d.config pdu.length }
  dsimp only at hrun
  rw [hbody _ rfl, ← hparser] at hrun
  rw [dispatch_of_ok hdata hhead hversion hrun, hparser]
  dsimp only [Scene.change]
  rw [Node.push_eq_pushAll, Node.pushAll_pushAll, root_pushAll]
  rfl

/-- What becomes of a message with a whole header. Its body goes to the grammar in effect and to no
other, and what that one shows is the same wherever it shows it. -/
theorem dispatch_message {d : Dissector} (hd : d.Binds Parser.plain) {pdu data : Octets}
    {g : Grammar} (hdata : pdu.take d.config.maxSize = data) (hlen : Header.size ≤ data.length)
    (hversion : d.versions.get? (Header.front data).version = some g)
    (hparser : g.parser = .message) :
    let header := Header.front data
    let body := data.drop Header.size
    let node := root d.config pdu.length
    match (d.overrides.get? header.messageId).or (d.messages.get? header.messageId) with
    | none =>
      d.dispatch pdu =
        { tree := { node with children := [headerNode header, Node.raw body] }
          consumed := data.length
          header := some header
          grammar := none
          calls := [⟨.message, data, .ok data.length, []⟩] }
    | some bound =>
      ∃ (outcome : Except Fault Nat) (nodes : List Node) (calls : List Call),
        (d.invoke bound.parser body).Adds
          { header := some header, grammar := some bound.name, region := none, cause := none }
          outcome nodes calls ∧
        d.dispatch pdu =
          match outcome with
          | .ok n =>
            { tree := { node with children := [headerNode header,
                { name := bound.description, children := nodes }] }
              consumed := Header.size + n
              header := some header
              grammar := some bound.name
              calls := [⟨.message, data, .ok (Header.size + n), calls⟩] }
          | .error fault =>
            { tree := { node with children := [headerNode header,
                { name := bound.description,
                  children := nodes ++ [(Node.raw body).addFault fault] }] }
              consumed := data.length
              header := some header
              grammar := some bound.name
              calls := [⟨.message, data, .ok data.length, calls⟩] } := by
  intro header body node
  have hfree := hd.imp fun _ => Parser.plain.scriptFree
  have hsize : Header.size + body.length = data.length := by
    rw [List.length_drop]
    omega
  have heffective := effective?_eq d header.messageId
  split
  · next hnone =>
    rw [hnone] at heffective
    have hbody : ∀ s : Scene, s.context = { header := some header } →
        dispatchMessage d d.invoke header.messageId body s =
          (body.length, s.change ⟨{ header := some header }, [Node.raw body], []⟩) := by
      intro s hs
      rw [dispatchMessage_of_none heffective, ← hs, Scene.emit_eq_change]
    rw [dispatch_of_body hfree hdata hlen hversion hparser hbody, hsize]
  · next bound hbound =>
    rw [hbound] at heffective
    have hplain := hd.effective heffective
    obtain ⟨outcome, e, ⟨hheader, hgrammar⟩, hrun⟩ := framed_invoke hd hplain body
      { header := some header, grammar := some bound.name, region := none, cause := none }
    refine ⟨outcome, e.nodes, e.calls, fun s hs => ⟨e.context, hrun s hs⟩, ?_⟩
    have hbody : ∀ s : Scene, s.context = { header := some header } →
        dispatchMessage d d.invoke header.messageId body s =
          (accounted body outcome, s.change ⟨e.context,
            [(Node.leaf bound.description .none).pushAll (e.nodes ++ remainder body outcome)],
            e.calls⟩) := by
      intro s hs
      rw [dispatchMessage_of_some heffective]
      exact delegate_of fun s' hs' => hrun s' (by rw [hs', hs]; rfl)
    rw [dispatch_of_body hfree hdata hlen hversion hparser hbody]
    dsimp only
    rw [hheader, hgrammar]
    cases outcome with
    | ok n =>
      rw [remainder, List.append_nil]
      rfl
    | error fault =>
      rw [accounted, hsize]
      rfl

def noCam : Grammar :=
  ⟨"none", "No CAM", .failing (.unsupported "CAM")⟩

def cam : Octets := [2, 2, 0, 0, 1, 4, 255]

theorem dispatch_message_noCam :
    ∃ d, standard {} = .ok d ∧
      (d.override 2 noCam).dispatch cam =
        { tree := { name := protocolName, children := [headerNode ⟨2, 2, 260⟩,
            { name := "No CAM", children := [(Node.raw [255]).addFault (.unsupported "CAM")] }] }
          consumed := 7
          header := some ⟨2, 2, 260⟩
          grammar := some "none"
          calls := [⟨.message, cam, .ok 7,
            [⟨.failing (.unsupported "CAM"), [255], .error (.unsupported "CAM"), []⟩]⟩] } := by
  obtain ⟨d, hstandard⟩ : ∃ d, standard {} = .ok d := ⟨_, rfl⟩
  have hconfig : d.config = {} := config_standard hstandard
  have hdata : cam.take (d.override 2 noCam).config.maxSize = cam := by
    show cam.take d.config.maxSize = cam
    rw [hconfig]
    rfl
  have hversion : (d.override 2 noCam).versions.get? (Header.front cam).version =
      some ⟨"ItsPduHeader", "ITS PDU header", .message⟩ :=
    versions_standard hstandard (by decide)
  have hplain : (d.override 2 noCam).Binds Parser.plain :=
    (plain_standard hstandard).override (show noCam.parser.plain from trivial)
  have hbound : ((d.override 2 noCam).overrides.get? 2).or ((d.override 2 noCam).messages.get? 2) =
      some noCam := by
    unfold override
    rw [OrderedMap.get?_insert, if_pos rfl]
    rfl
  have hdispatch := dispatch_message hplain hdata (by decide) hversion rfl
  dsimp only at hdispatch
  rw [show (Header.front cam).messageId = 2 from rfl, hbound] at hdispatch
  obtain ⟨outcome, nodes, calls, hadds, hdispatch⟩ := hdispatch
  obtain ⟨after, hafter⟩ := hadds ⟨_, Node.leaf "" .none, []⟩ rfl
  rw [invoke_eq (hplain.imp fun _ => Parser.plain.scriptFree) (p := noCam.parser) trivial] at hafter
  cases outcome with
  | ok n => cases hafter
  | error fault =>
    cases hafter
    refine ⟨d, hstandard, hdispatch.trans ?_⟩
    have hroot : root (d.override 2 noCam).config cam.length = Node.leaf protocolName .none := by
      show root d.config cam.length = _
      rw [hconfig]
      rfl
    rw [hroot]
    rfl

end Dissector

end V2x
