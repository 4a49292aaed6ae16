import V2x.Proofs.Decode.Calls
import V2x.Proofs.Dissector.Dispatch
import V2x.Proofs.Dissector.Growth

/-!
# How parsers nest

A parser that runs another one hands it at least two octets less than it was given. The calls that have been
made bear witness to this: inner calls are on shorter octets, so that a message of `n` octets has at most `n`
parsers running at the same time (`dispatch_nesting`).
-/

namespace V2x

namespace Call

/-- At any depth, inner calls are on octets that are shorter by two or more. -/
def Shrinks (call : Call) : Prop :=
  ∀ c ∈ call.every, ∀ inner ∈ c.inner, inner.span.length + 2 ≤ c.span.length

/-- A call that another one with `n` octets can make. -/
def Fits (n : Nat) (call : Call) : Prop :=
  call.span.length + 2 ≤ n ∧ call.Shrinks

theorem shrinks_iff (call : Call) :
    call.Shrinks ↔ ∀ inner ∈ call.inner, inner.Fits call.span.length := by
  refine throughout_iff.trans ⟨?_, ?_⟩
  · rintro ⟨hspan, hinner⟩ inner hmem
    exact ⟨hspan inner hmem, hinner inner hmem⟩
  · intro h
    exact ⟨fun inner hmem => (h inner hmem).1, fun inner hmem => (h inner hmem).2⟩

/-- Every two octets leave room for one more call. -/
theorem Shrinks.depth_le : ∀ {call : Call}, call.Shrinks → call.depth ≤ call.span.length / 2 + 1
  | ⟨parser, span, result, inner⟩, h => by
    rw [depth_eq]
    refine Nat.succ_le_succ (depthIn_le fun c hc => ?_)
    obtain ⟨hspan, hshrinks⟩ := (shrinks_iff _).mp h c hc
    have hdepth := hshrinks.depth_le
    dsimp only at hspan ⊢
    omega

end Call

namespace Dissector

variable {d : Dissector} {invoke : Invoke} {Q : Call → Prop}

theorem makes_recorded {p : Parser} {data : Octets} {body : Run Nat} {R : Call → Prop}
    (h : body.Moves (Scene.Makes Q))
    (hcall : ∀ (s : Scene) (calls : List Call), (∀ inner ∈ calls, Q inner) →
      R ⟨p, data, (body s).outcome, calls⟩) :
    (Run.recorded p data body).Moves (Scene.Makes R) := by
  intro s
  obtain ⟨calls, hcalls, hmade⟩ := h { s with calls := [] }
  have hrun := Run.recorded_of (body { s with calls := [] }).eq_of p data
  refine ⟨[⟨p, data, (body { s with calls := [] }).outcome, calls⟩], ?_, fun call hmem => ?_⟩
  · rw [hrun, EStateM.Result.state_of, hcalls]
    rfl
  · cases List.mem_singleton.mp hmem
    exact hcall _ calls hmade

theorem makes_delegate {g : Grammar} {span : Octets}
    (h : (invoke g.parser span).Moves (Scene.Makes Q)) :
    (delegate invoke g span).Moves (Scene.Makes Q) := by
  intro s
  have hcalls := h (s.descend g.description)
  unfold delegate
  cases hr : invoke g.parser span (s.descend g.description) with
  | ok n inner =>
    rw [hr] at hcalls
    exact hcalls
  | error fault inner =>
    rw [hr] at hcalls
    exact hcalls

/-- A parser that has run is one more call, and nothing has been handed more than its octets less two. -/
theorem makes_invoke (hd : d.Binds Parser.scriptFree) {p : Parser} (hp : p.scriptFree)
    (data : Octets) :
    (d.invoke p data).Moves (Scene.Makes fun call => call.span = data ∧ call.Shrinks) := by
  induction hn : data.length using Nat.strongRecOn generalizing p data with
  | ind n ih =>
    subst hn
    -- What the parser does on longer octets does not matter, so they may be refused without a call.
    let shorter : Invoke := fun q inner =>
      if inner.length < data.length - 1 then d.invoke q inner else throw (.unsupported "nested parser")
    have hagree : AgreeBelow (data.length - 1) d.invoke shorter :=
      fun q inner _ hinner => (if_pos hinner).symm
    rw [invoke_eq hd hp, runWith_eq hd hp hagree]
    refine makes_recorded (Q := Call.Fits data.length) ?_
      fun _ _ hfits => ⟨rfl, (Call.shrinks_iff _).mpr hfits⟩
    refine (Scene.Makes.growth _).moves_runWith hd (fun g inner hg => ?_) hp
      (fun _ _ _ _ => trivial) data
    refine makes_delegate ?_
    dsimp only [shorter]
    split
    · next hinner =>
      intro s
      refine (ih inner.length (by omega) hg inner rfl s).imp fun call hcall => ?_
      rw [Call.Fits, hcall.1]
      exact ⟨by omega, hcall.2⟩
    · exact fun s => .of_same rfl

theorem makes_dispatchVersion {version : UInt8} {data : Octets}
    (h : ∀ {g}, d.versions.get? version = some g →
      (invoke g.parser data).Moves (Scene.Makes Q)) :
    (d.dispatchVersion invoke version data).Moves (Scene.Makes Q) := by
  intro s
  unfold dispatchVersion
  split
  · next g hg =>
    have hcalls := h hg s
    cases hr : invoke g.parser data s with
    | ok n after =>
      rw [hr] at hcalls
      exact hcalls
    | error fault after =>
      rw [hr] at hcalls
      exact hcalls
  · exact .of_same rfl

/-- Parsers nest, however they are bound to each other, but on fewer and fewer octets. Each call that is made
inside another one is on fewer octets than this one, so that the calls nest no deeper than the message has
octets. Nothing is cut off for that: a parser runs the others just as they run on their own, what they would do
on longer octets does not matter to it, and room for as many parsers as there are octets is room enough. -/
theorem dispatch_nesting (d : Dissector) (hd : d.Binds Parser.scriptFree)
    (hversions : ∀ {version g}, d.versions.get? version = some g → g.parser.scriptFree)
    (pdu : Octets) :
    (∀ call ∈ Call.everyIn (d.dispatch pdu).calls, ∀ inner ∈ call.inner,
      inner.span.length < call.span.length) ∧
    Call.depthIn (d.dispatch pdu).calls ≤ pdu.length ∧
    (∀ (p : Parser) (data : Octets), p.scriptFree →
      d.invoke p data = Run.recorded p data (runWith d d.invoke p data) ∧
      ∀ other : Invoke, AgreeBelow data.length other d.invoke →
        runWith d other p data = runWith d d.invoke p data) ∧
    ∀ (room : Nat) (version : UInt8) (rest : Octets), pdu.length ≤ room →
      pdu.take d.config.maxSize = version :: rest →
      d.dispatchVersion (d.run room) version (version :: rest) =
        d.dispatchVersion d.invoke version (version :: rest) := by
  have hcalls : ∀ call ∈ (d.dispatch pdu).calls, call.span.length ≤ pdu.length ∧
      0 < call.span.length ∧ call.Shrinks := by
    have hle := pdu.length_take_le' d.config.maxSize
    unfold dispatch
    cases hdata : pdu.take d.config.maxSize with
    | nil => exact nofun
    | cons version rest =>
      rw [hdata] at hle
      obtain ⟨calls, hcalls, hmade⟩ := makes_dispatchVersion
        (fun hg => makes_invoke hd (hversions hg) (version :: rest))
        { tree := root d.config pdu.length }
      intro call hcall
      dsimp only at hcall
      rw [hcalls] at hcall
      obtain ⟨hspan, hshrinks⟩ := hmade call hcall
      exact ⟨hspan ▸ hle, hspan ▸ Nat.zero_lt_succ _, hshrinks⟩
  refine ⟨?_, ?_, ?_, ?_⟩
  · intro call hcall inner hinner
    obtain ⟨top, htop, hin⟩ := Call.mem_everyIn.mp hcall
    have hshrink := (hcalls top htop).2.2 call hin inner hinner
    omega
  · refine Call.depthIn_le fun call hcall => ?_
    obtain ⟨hle, hpos, hshrinks⟩ := hcalls call hcall
    have hdepth := hshrinks.depth_le
    omega
  · intro p data hp
    refine ⟨invoke_eq hd hp data, fun other hother => ?_⟩
    exact runWith_eq hd hp fun q inner hq hinner => hother q inner hq (by omega)
  · intro room version rest hroom hdata
    have hle := pdu.length_take_le' d.config.maxSize
    rw [hdata, List.length_cons] at hle
    refine dispatchVersion_congr fun hg => run_eq_run hd _ _ (hversions hg) ?_ ?_
    · rw [List.length_cons]
      omega
    · omega

/-- A message whose body is a message again, twice, and then no octets. -/
theorem dispatch_nesting_headers :
    ∃ d, standard {} = .ok d ∧
      let header : Octets := [2, 1, 0, 0, 0, 0]
      let nested := d.override 1 ⟨"header", "Header", .message⟩
      let calls := (nested.dispatch (header ++ header ++ header)).calls
      Call.depthIn calls = 4 ∧ Call.depthIn calls ≤ 18 ∧
        ∀ call ∈ Call.everyIn calls, ∀ inner ∈ call.inner, inner.span.length < call.span.length := by
  obtain ⟨d, hd⟩ : ∃ d, standard {} = .ok d := ⟨_, rfl⟩
  refine ⟨d, hd, ?_⟩
  intro header nested calls
  have hfree : d.Binds Parser.scriptFree := (plain_standard hd).imp fun _ => Parser.plain.scriptFree
  have hversions : ∀ {version g}, nested.versions.get? version = some g → g.parser.scriptFree := by
    intro version g hg
    rw [version_standard hd hg]
    trivial
  obtain ⟨hshorter, hdepth, -⟩ :=
    dispatch_nesting nested (hfree.override trivial) hversions (header ++ header ++ header)
  refine ⟨?_, hdepth, hshorter⟩
  have hrun : (standard {}).map (fun d => Call.depthIn ((d.override 1 ⟨"header", "Header", .message⟩).dispatch
      (header ++ header ++ header)).calls) = .ok 4 := by
    decide +kernel
  rw [hd] at hrun
  exact Except.ok.inj hrun

end Dissector

end V2x
