import V2x.Proofs.Decode.Position
import V2x.Proofs.Dissector.Nesting
import V2x.Proofs.Dissector.Oversize

/-!
# How many octets are accounted for

A parser never accounts for more octets than it was given, and neither does anything that hands octets on. What
nobody can parse counts as accounted for as a whole (`dispatch_accounted`).
-/

namespace V2x

/-- If the parser came to a value, this is at most the number of its octets. -/
def Call.Bounded (call : Call) : Prop :=
  ∀ n, call.result = .ok n → n ≤ call.span.length

/-- Nothing accounts for more than it was given, neither the parser itself nor those that it runs. -/
structure Run.Accounts (data : Octets) (run : Run Nat) : Prop where
  le {s after : Scene} {n : Nat} : run s = .ok n after → n ≤ data.length
  calls : run.Moves (Scene.Makes (Call.Throughout Call.Bounded))

namespace Dissector

variable {d : Dissector} {invoke : Invoke}

theorem accounts_recorded {body : Run Nat} {data : Octets} (h : body.Accounts data) (p : Parser) :
    (Run.recorded p data body).Accounts data where
  le {s after n} hrun := by
    rw [Run.recorded_of (body { s with calls := [] }).eq_of] at hrun
    cases hbody : body { s with calls := [] } with
    | ok m t =>
      rw [hbody] at hrun
      cases hrun
      exact h.le hbody
    | error fault t =>
      rw [hbody] at hrun
      cases hrun
  calls := by
    refine makes_recorded h.calls fun s calls hcalls => Call.throughout_iff.mpr ⟨?_, hcalls⟩
    intro n hn
    cases hbody : body s with
    | ok m t =>
      rw [hbody] at hn
      cases hn
      exact h.le hbody
    | error fault t =>
      rw [hbody] at hn
      cases hn

def advancing (d : Dissector) (invoke : Invoke) : Actions d d invoke invoke where
  Rel m _ := Dissect.Advances m
  pure := Dissect.advances_pure
  bind := Dissect.Advances.bind
  read := Dissect.advances_read
  leaf name value := Dissect.advances_emit (Node.leaf name value)
  context := Dissect.advances_context
  modifyContext := Dissect.advances_modifyContext
  decode := Dissect.advances_field _
  dispatchMessage _ _ := Dissect.advances_surely _
  parseMessage _ := Dissect.advances_run _
  parseSchema _ _ := Dissect.advances_run _

section

variable (h : ∀ (p : Parser) (data : Octets), (invoke p data).Accounts data)
include h

theorem delegate_le (g : Grammar) (span : Octets) (s : Scene) :
    (delegate invoke g span s).1 ≤ span.length := by
  unfold delegate
  cases hrun : invoke g.parser span (s.descend g.description) with
  | ok n inner => exact (h _ _).le hrun
  | error fault inner => exact Nat.le_refl _

theorem dispatchMessage_le (id : UInt8) (body : Octets) (s : Scene) :
    (dispatchMessage d invoke id body s).1 ≤ body.length := by
  unfold dispatchMessage
  cases d.effective? id with
  | none => exact Nat.le_refl _
  | some g => exact delegate_le h g body _

theorem runWith_le {p : Parser} {data : Octets} {s after : Scene} {n : Nat}
    (hrun : runWith d invoke p data s = .ok n after) : n ≤ data.length := by
  cases p with
  | message =>
    rw [runWith] at hrun
    cases hdecode : Header.decode data with
    | error fault =>
      unfold parseMessage at hrun
      rw [hdecode] at hrun
      cases hrun
    | ok front =>
      obtain ⟨header, body⟩ := front
      rw [parseMessage_of_decode hdecode] at hrun
      cases hrun
      rw [length_of_decode hdecode]
      exact Nat.add_le_add_left (dispatchMessage_le h _ _ _) _
  | schema schema => exact (Dissect.advances_schema _ schema).consumed_le hrun
  | undecoded =>
    cases hrun
    exact Nat.le_refl _
  | marker name =>
    cases hrun
    exact Nat.le_refl _
  | failing fault => cases hrun
  | script steps =>
    have hsteps : Dissect.Advances (runSteps d invoke steps) :=
      (advancing d invoke).runSteps steps (.inr fun _ _ => Dissect.advances_surely _)
    exact hsteps.consumed_le hrun

theorem accounts_runWith (p : Parser) (data : Octets) : (runWith d invoke p data).Accounts data where
  le := runWith_le h
  calls := by
    have hbinds : d.Binds fun _ => True := ⟨fun _ => trivial, fun _ => trivial, fun _ => trivial⟩
    refine (Scene.Makes.growth _).moves_runWith_of_quiet hbinds (fun g span _ => ?_)
      (fun _ => trivial) p data
    exact makes_delegate (h g.parser span).calls

end

theorem accounts_run (d : Dissector) (n : Nat) (p : Parser) (data : Octets) :
    (run d n p data).Accounts data := by
  induction n generalizing p data with
  | zero => exact ⟨nofun, fun _ => .of_same rfl⟩
  | succ n ih => exact accounts_recorded (accounts_runWith ih p data) p

theorem accounts_invoke (d : Dissector) (p : Parser) (data : Octets) :
    (d.invoke p data).Accounts data :=
  accounts_run d _ p data

/-! ## What is recorded of a message -/

theorem calls_recorded (p : Parser) (data : Octets) (body : Run Nat) (s : Scene) :
    ∃ inner, (Run.recorded p data body s).state.calls =
      s.calls ++ [⟨p, data, (Run.recorded p data body s).outcome, inner⟩] := by
  rw [Run.recorded_of (body { s with calls := [] }).eq_of, EStateM.Result.outcome_of,
    EStateM.Result.state_of]
  exact ⟨_, rfl⟩

theorem calls_invoke (d : Dissector) (p : Parser) (data : Octets) (s : Scene) :
    ∃ inner, (d.invoke p data s).state.calls =
      s.calls ++ [⟨p, data, (d.invoke p data s).outcome, inner⟩] := by
  obtain ⟨n, hrun⟩ := exists_invoke_eq d p data
  rw [hrun]
  exact calls_recorded p data _ s

theorem delegate_recording (handlers : Invoke) (g : Grammar) (span : Octets) (s : Scene) :
    ∃ call : Call, call.parser = g.parser ∧ call.span = span ∧
      (delegate (recording handlers) g span s).1 = accounted span call.result ∧
      (delegate (recording handlers) g span s).2.calls = s.calls ++ [call] := by
  obtain ⟨inner, hcalls⟩ := calls_recorded g.parser span (handlers g.parser span)
    (s.descend g.description)
  unfold delegate
  cases hrun : recording handlers g.parser span (s.descend g.description) with
  | ok n after =>
    rw [recording] at hrun
    rw [hrun] at hcalls
    exact ⟨⟨g.parser, span, .ok n, inner⟩, rfl, rfl, rfl, hcalls⟩
  | error fault after =>
    rw [recording] at hrun
    rw [hrun] at hcalls
    exact ⟨⟨g.parser, span, .error fault, inner⟩, rfl, rfl, rfl, hcalls⟩

theorem dispatchVersion_of_some {version : UInt8} {g : Grammar}
    (h : d.versions.get? version = some g) (data : Octets) (s : Scene) :
    (d.dispatchVersion invoke version data s).1 = accounted data (invoke g.parser data s).outcome ∧
      (d.dispatchVersion invoke version data s).2.calls = (invoke g.parser data s).state.calls := by
  unfold dispatchVersion
  rw [h]
  dsimp only
  cases invoke g.parser data s with
  | ok n after => exact ⟨rfl, rfl⟩
  | error fault after => exact ⟨rfl, rfl⟩

/-- The parser of whole messages has run at most one other, on the body. -/
theorem parseMessage_recording {data body : Octets} {header : Header}
    (h : Header.decode data = .ok (header, body)) (handlers : Invoke) (s : Scene) :
    let run := parseMessage d (recording handlers) data s
    match d.effective? header.messageId with
    | none => run.outcome = .ok data.length ∧ run.state.calls = s.calls
    | some g => ∃ call : Call, call.parser = g.parser ∧ call.span = body ∧
        run.outcome = .ok (Header.size + accounted body call.result) ∧
        run.state.calls = s.calls ++ [call] := by
  intro run
  have hrun : run = _ := parseMessage_of_decode h d (recording handlers) s
  rw [hrun]
  cases heffective : d.effective? header.messageId with
  | none =>
    rw [dispatchMessage_of_none heffective, length_of_decode h]
    exact ⟨rfl, rfl⟩
  | some g =>
    rw [dispatchMessage_of_some heffective]
    obtain ⟨call, hparser, hspan, hcount, hcalls⟩ := delegate_recording handlers g body
      { s.emit (headerNode header) with
        context := { s.context with header := some header }.beginMessage g.name }
    exact ⟨call, hparser, hspan, congrArg _ (congrArg _ hcount), hcalls⟩

theorem invoke_message_calls (d : Dissector) {data body : Octets} {header : Header}
    (h : Header.decode data = .ok (header, body)) (s : Scene) :
    let run := d.invoke .message data s
    match d.effective? header.messageId with
    | none => run.outcome = .ok data.length ∧
        run.state.calls = s.calls ++ [⟨.message, data, .ok data.length, []⟩]
    | some g => ∃ call : Call, call.parser = g.parser ∧ call.span = body ∧
        run.outcome = .ok (Header.size + accounted body call.result) ∧
        run.state.calls = s.calls ++
          [⟨.message, data, .ok (Header.size + accounted body call.result), [call]⟩] := by
  obtain ⟨n, hinvoke⟩ := exists_invoke_eq d .message data
  rw [hinvoke, run_eq_recording, runWith]
  have hbody := parseMessage_recording (d := d) h (runWith d (run d n)) { s with calls := [] }
  dsimp only at hbody ⊢
  rw [Run.recorded_of (parseMessage d _ data { s with calls := [] }).eq_of,
    EStateM.Result.outcome_of, EStateM.Result.state_of]
  split at hbody
  · obtain ⟨houtcome, hcalls⟩ := hbody
    rw [houtcome, hcalls]
    exact ⟨rfl, rfl⟩
  · obtain ⟨call, hparser, hspan, houtcome, hcalls⟩ := hbody
    rw [houtcome, hcalls]
    exact ⟨call, hparser, hspan, rfl, rfl⟩

/-- What happens to the version of a message, in terms of what is accounted for. -/
theorem dispatch_of_version {pdu rest : Octets} {version : UInt8}
    (h : pdu.take d.config.maxSize = version :: rest) :
    let node := root d.config pdu.length
    match d.versions.get? version with
    | none => (d.dispatch pdu).consumed = (version :: rest).length ∧ (d.dispatch pdu).calls = []
    | some g =>
      let run := d.invoke g.parser (version :: rest) { tree := node }
      (d.dispatch pdu).consumed = accounted (version :: rest) run.outcome ∧
        (d.dispatch pdu).calls = run.state.calls := by
  intro node
  rw [dispatch_of_take_cons h]
  cases hg : d.versions.get? version with
  | none =>
    unfold dispatchVersion
    rw [hg]
    exact ⟨rfl, rfl⟩
  | some g => exact dispatchVersion_of_some hg _ _

theorem accounted_le {data : Octets} {o : Except Fault Nat}
    (h : ∀ n, o = .ok n → n ≤ data.length) : accounted data o ≤ data.length := by
  cases o with
  | ok n => exact h n rfl
  | error fault => exact Nat.le_refl _

theorem consumed_le_of_take (d : Dissector) (pdu : Octets) :
    (d.dispatch pdu).consumed ≤ (pdu.take d.config.maxSize).length := by
  cases hdata : pdu.take d.config.maxSize with
  | nil =>
    rw [dispatch_of_take_nil hdata]
    exact Nat.zero_le _
  | cons version rest =>
    have hversion := dispatch_of_version hdata
    dsimp only at hversion
    split at hversion
    · exact Nat.le_of_eq hversion.1
    · next g _ =>
      rw [hversion.1]
      refine accounted_le fun n hn => ?_
      obtain ⟨after, hrun⟩ := EStateM.Result.exists_of_outcome hn
      exact (accounts_invoke d g.parser _).le hrun

theorem bounded_of_dispatch (d : Dissector) (pdu : Octets) :
    ∀ call ∈ Call.everyIn (d.dispatch pdu).calls, call.Bounded := by
  suffices h : ∀ call ∈ (d.dispatch pdu).calls, call.Throughout Call.Bounded by
    intro c hc
    obtain ⟨call, hcall, hin⟩ := Call.mem_everyIn.mp hc
    exact h call hcall c hin
  cases hdata : pdu.take d.config.maxSize with
  | nil =>
    rw [dispatch_of_take_nil hdata]
    exact nofun
  | cons version rest =>
    have hversion := dispatch_of_version hdata
    dsimp only at hversion
    split at hversion
    · rw [hversion.2]
      exact nofun
    · next g _ =>
      obtain ⟨calls, hcalls, hbounded⟩ := (accounts_invoke d g.parser (version :: rest)).calls
        { tree := root d.config pdu.length }
      rw [hversion.2, hcalls]
      exact hbounded

/-- Accounting is sound: no more octets of a message are accounted for than are looked at, and no parser that ran
meanwhile has accounted for more octets than it was given. All octets count if nobody knows the version or the
message, and if the parser of either of them fails. -/
theorem dispatch_accounted (d : Dissector) (pdu : Octets) :
    let data := pdu.take d.config.maxSize
    let size := min pdu.length d.config.maxSize
    let result := d.dispatch pdu
    result.consumed ≤ size ∧
    (∀ version, data.head? = some version → d.versions.get? version = none →
      result.consumed = size) ∧
    (∀ version g, data.head? = some version → d.versions.get? version = some g →
      ∃ call, result.calls = [call] ∧ call.parser = g.parser ∧ call.span = data ∧
        (∀ fault, call.result = .error fault → result.consumed = size) ∧
        ∀ header body, g.parser = .message → Header.decode data = .ok (header, body) →
          match d.effective? header.messageId with
          | none => result.consumed = size
          | some bound => ∃ inner, call.inner = [inner] ∧ inner.parser = bound.parser ∧
              inner.span = body ∧ ∀ fault, inner.result = .error fault → result.consumed = size) ∧
    ∀ call ∈ Call.everyIn result.calls, ∀ n, call.result = .ok n → n ≤ call.span.length := by
  intro data size result
  have hsize : data.length = size := by
    rw [List.length_take, Nat.min_comm]
  refine ⟨hsize ▸ consumed_le_of_take d pdu, ?_, ?_, bounded_of_dispatch d pdu⟩
  · intro version hhead hnone
    obtain ⟨rest, hdata⟩ := List.head?_eq_some_iff.mp hhead
    have hversion := dispatch_of_version hdata
    rw [hnone] at hversion
    rw [← hsize, hdata]
    exact hversion.1
  · intro version g hhead hg
    obtain ⟨rest, hdata⟩ := List.head?_eq_some_iff.mp hhead
    have hversion := dispatch_of_version hdata
    rw [hg, ← hdata] at hversion
    let node : Scene := { tree := root d.config pdu.length }
    have hconsumed : result.consumed = accounted data (d.invoke g.parser data node).outcome :=
      hversion.1
    obtain ⟨calls, hrecorded⟩ := calls_invoke d g.parser data node
    refine ⟨_, hversion.2.trans hrecorded, rfl, rfl, fun fault hfault => ?_, ?_⟩
    · have hfailed : (d.invoke g.parser data node).outcome = .error fault := hfault
      rw [hconsumed, hfailed]
      exact hsize
    · intro header body hmessage hdecode
      have hbody := invoke_message_calls d hdecode node
      rw [← hmessage] at hbody
      cases heffective : d.effective? header.messageId with
      | none =>
        rw [heffective] at hbody
        rw [hconsumed, hbody.1]
        exact hsize
      | some bound =>
        rw [heffective] at hbody
        obtain ⟨inner, hparser, hspan, houtcome, hmade⟩ := hbody
        have hsame := List.append_cancel_left (hrecorded.symm.trans hmade)
        refine ⟨inner, congrArg Call.inner (List.cons.inj hsame).1, hparser, hspan, fun fault hfault => ?_⟩
        rw [hconsumed, houtcome, hfault, ← hsize, length_of_decode hdecode]
        rfl

/-- A message whose body begins like a message but ends within its header. -/
theorem dispatch_accounted_broken :
    ∃ d, standard {} = .ok d ∧
      let nested := d.override 1 ⟨"header", "Header", .message⟩
      let result := nested.dispatch [2, 1, 0, 0, 0, 0, 2, 1]
      ∃ call inner, result.calls = [call] ∧ call.inner = [inner] ∧ inner.parser = .message ∧
        inner.span = [2, 1] ∧ inner.result = .error (.incomplete 48 16) ∧ result.consumed = 8 ∧
        ∀ n, call.result = .ok n → n ≤ call.span.length := by
  obtain ⟨d, hd⟩ : ∃ d, standard {} = .ok d := ⟨_, rfl⟩
  refine ⟨d, hd, ?_⟩
  intro nested result
  have hconfig : nested.config = {} := (config_standard hd : d.config = {})
  have hversion : nested.versions.get? 2 = some ⟨"ItsPduHeader", "ITS PDU header", .message⟩ :=
    versions_standard hd (by decide)
  have heffective : nested.effective? 1 = some ⟨"header", "Header", .message⟩ := by
    unfold effective? nested override
    rw [OrderedMap.get?_insert, if_pos rfl]
  obtain ⟨-, -, hknown, hbounded⟩ := dispatch_accounted nested [2, 1, 0, 0, 0, 0, 2, 1]
  rw [hconfig] at hknown
  obtain ⟨call, hcalls, -, -, -, hbody⟩ := hknown 2 _ rfl hversion
  have hmessage := hbody ⟨2, 1, 0⟩ [2, 1] rfl rfl
  rw [heffective] at hmessage
  obtain ⟨inner, honly, hparser, hspan, hfault⟩ := hmessage
  have hfailed : inner.result = .error (.incomplete 48 16) := by
    have hresults : (nested.dispatch [2, 1, 0, 0, 0, 0, 2, 1]).calls.flatMap
        (fun call => call.inner.map Call.result) = [.error (.incomplete 48 16)] :=
      eq_of_standard hd (f := fun d => ((d.override 1 ⟨"header", "Header", .message⟩).dispatch
        [2, 1, 0, 0, 0, 0, 2, 1]).calls.flatMap fun call => call.inner.map Call.result) (by decide +kernel)
    rw [hcalls, List.flatMap_singleton, honly, List.map_singleton] at hresults
    exact (List.cons.inj hresults).1
  refine ⟨call, inner, hcalls, honly, hparser, hspan, hfailed, hfault _ hfailed, ?_⟩
  refine hbounded call (Call.mem_everyIn.mpr ⟨call, ?_, ?_⟩)
  · rw [hcalls]
    exact List.mem_singleton_self call
  · rw [Call.every_eq]
    exact List.mem_cons_self

end Dissector

end V2x
