import V2x.Dissector.Run
import V2x.Proofs.Decode.Payload

/-!
# How deep parsers nest

Apart from scripts, every parser hands on at least two octets less than it was given. As long as no script
is bound anywhere, a run therefore does not depend on the depth it is granted, once that exceeds half the
number of octets (`run_eq_run`).
-/

namespace V2x

def Parser.scriptFree : Parser → Prop
  | .script _ => False
  | _ => True

namespace Dissector

/-- Every parser that a parser can be handed on to has the property. -/
structure Binds (d : Dissector) (P : Parser → Prop) : Prop where
  messages {id : UInt8} {g : Grammar} : d.messages.get? id = some g → P g.parser
  extensions {key : ExtensionKey} {g : Grammar} : d.extensions.get? key = some g → P g.parser
  overrides {id : UInt8} {g : Grammar} : d.overrides.get? id = some g → P g.parser

variable {d : Dissector} {P Q : Parser → Prop}

theorem Binds.imp (h : d.Binds P) (hPQ : ∀ p, P p → Q p) : d.Binds Q where
  messages hg := hPQ _ (h.messages hg)
  extensions hg := hPQ _ (h.extensions hg)
  overrides hg := hPQ _ (h.overrides hg)

theorem effective?_eq (d : Dissector) (id : UInt8) :
    d.effective? id = (d.overrides.get? id).or (d.messages.get? id) := by
  unfold effective?
  cases d.overrides.get? id <;> rfl

theorem Binds.effective (h : d.Binds P) {id : UInt8} {g : Grammar}
    (hg : d.effective? id = some g) : P g.parser := by
  rw [effective?_eq, Option.or_eq_some_iff] at hg
  rcases hg with hg | ⟨-, hg⟩
  · exact h.overrides hg
  · exact h.messages hg

theorem Binds.override (h : d.Binds P) {id : UInt8} {g : Grammar} (hg : P g.parser) :
    (d.override id g).Binds P where
  messages := h.messages
  extensions := h.extensions
  overrides {id' g'} hg' := by
    unfold Dissector.override at hg'
    rw [OrderedMap.get?_insert] at hg'
    split at hg'
    · cases hg'
      exact hg
    · exact h.overrides hg'

/-- Two ways to run parsers agree on script-free parsers and fewer than `n` octets. -/
def AgreeBelow (n : Nat) (left right : Invoke) : Prop :=
  ∀ (p : Parser) (data : Octets), p.scriptFree → data.length < n → left p data = right p data

variable {n : Nat} {left right : Invoke}

theorem delegate_eq (h : AgreeBelow n left right) {g : Grammar} (hg : g.parser.scriptFree)
    {span : Octets} (hspan : span.length < n) : delegate left g span = delegate right g span := by
  unfold delegate
  rw [h g.parser span hg hspan]

theorem resolve_agreeBelow (hd : d.Binds Parser.scriptFree) (h : AgreeBelow n left right) :
    Resolver.AgreeBelow n (resolve d left) (resolve d right) := by
  intro slot payload hpayload
  funext s
  unfold resolve
  dsimp only
  split
  · rfl
  · split
    · next g hg => rw [delegate_eq h (hd.extensions hg) hpayload]
    · rfl

theorem dispatchMessage_eq (hd : d.Binds Parser.scriptFree) (h : AgreeBelow n left right)
    (id : UInt8) {body : Octets} (hbody : body.length < n) :
    dispatchMessage d left id body = dispatchMessage d right id body := by
  funext s
  unfold dispatchMessage
  split
  · next g hg => rw [delegate_eq h (hd.effective hg) hbody]
  · rfl

theorem length_of_decode {data body : Octets} {header : Header}
    (h : Header.decode data = .ok (header, body)) : data.length = Header.size + body.length := by
  unfold Header.decode at h
  split at h
  · cases h
    simp only [List.length_cons, Header.size]
    omega
  · cases h

theorem parseMessage_of_decode {data body : Octets} {header : Header}
    (h : Header.decode data = .ok (header, body)) (d : Dissector) (invoke : Invoke) (s : Scene) :
    parseMessage d invoke data s =
      let after := dispatchMessage d invoke header.messageId body
        { s.emit (headerNode header) with context := { s.context with header := some header } }
      .ok (Header.size + after.1) after.2 := by
  unfold parseMessage
  rw [h]
  rfl

theorem parseMessage_eq (hd : d.Binds Parser.scriptFree) {data : Octets}
    (h : AgreeBelow (data.length - 1) left right) :
    parseMessage d left data = parseMessage d right data := by
  unfold parseMessage
  split
  · rfl
  · next header body hdecode =>
    have hlen := length_of_decode hdecode
    have hbody : body.length < data.length - 1 := by
      rw [hlen, Header.size]
      omega
    rw [dispatchMessage_eq hd h header.messageId hbody]

theorem parseSchema_eq (hd : d.Binds Parser.scriptFree) (schema : Schema) {data : Octets}
    (h : AgreeBelow (data.length - 1) left right) :
    parseSchema d left schema data = parseSchema d right schema data := by
  funext s
  have hfit : (Per.Reader.ofOctets data).remaining ≤ 8 * (data.length - 1 + 1) := by
    rw [Per.Reader.remaining_ofOctets]
    omega
  unfold parseSchema Dissect.parse
  rw [Dissect.schema_eq_of_agree (resolve_agreeBelow hd h) schema hfit]

theorem runWith_eq (hd : d.Binds Parser.scriptFree) {p : Parser} (hp : p.scriptFree)
    {data : Octets} (h : AgreeBelow (data.length - 1) left right) :
    runWith d left p data = runWith d right p data := by
  cases p with
  | message => exact parseMessage_eq hd h
  | schema schema => exact parseSchema_eq hd schema h
  | undecoded => rfl
  | marker name => rfl
  | failing fault => rfl
  | script steps => exact hp.elim

theorem run_succ (d : Dissector) (n : Nat) (p : Parser) (data : Octets) :
    run d (n + 1) p data = Run.recorded p data (runWith d (run d n) p data) := rfl

/-- Depths beyond half the number of octets are all alike. -/
theorem run_eq_run (hd : d.Binds Parser.scriptFree) (n m : Nat) {p : Parser} (hp : p.scriptFree)
    {data : Octets} (hn : data.length < 2 * n) (hm : data.length < 2 * m) :
    run d n p data = run d m p data := by
  induction n generalizing m p data with
  | zero => exact absurd hn (Nat.not_lt_zero _)
  | succ n ih =>
    cases m with
    | zero => exact absurd hm (Nat.not_lt_zero _)
    | succ m =>
      have hagree : AgreeBelow (data.length - 1) (run d n) (run d m) := fun q inner hq hinner =>
        ih m hq (by omega) (by omega)
      rw [run_succ, run_succ, runWith_eq hd hp hagree]

/-- Whatever is bound, a parser is recorded and so are those that it runs. -/
theorem exists_invoke_eq (d : Dissector) (p : Parser) (data : Octets) :
    ∃ n, d.invoke p data = Run.recorded p data (runWith d (run d (n + 1)) p data) := by
  have hroom : data.length + scriptDepth = data.length + (scriptDepth - 1) + 1 := by
    unfold scriptDepth
    omega
  refine ⟨data.length + (scriptDepth - 1), ?_⟩
  rw [← hroom]
  exact run_succ _ _ _ _

/-- Without scripts the depth can be forgotten: a parser runs the others just as they run on their own. -/
theorem invoke_eq (hd : d.Binds Parser.scriptFree) {p : Parser} (hp : p.scriptFree)
    (data : Octets) :
    d.invoke p data = Run.recorded p data (runWith d d.invoke p data) := by
  have hagree : AgreeBelow (data.length - 1) (run d (data.length + scriptDepth)) d.invoke :=
    fun q inner hq hinner => run_eq_run hd _ _ hq (by omega) (by omega)
  rw [← runWith_eq hd hp hagree]
  exact run_succ _ _ _ _

/-- Runs other parsers on fewer than `n` octets only. -/
def below (n : Nat) (invoke : Invoke) : Invoke := fun p data =>
  if data.length < n then invoke p data
  else Run.recorded p data (throw (.unsupported "nested parser"))

/-- What is recorded of a parser has a property if what is recorded of a failure has it, and if a parser
passes it on from those that it runs. -/
theorem invoke_induction (hd : d.Binds P) (hfree : ∀ p, P p → p.scriptFree)
    {R : Octets → Run Nat → Prop}
    (hfail : ∀ p data fault, R data (Run.recorded p data (throw fault)))
    (hstep : ∀ invoke : Invoke, (∀ p data, P p → R data (invoke p data)) →
      ∀ p data, P p → R data (Run.recorded p data (runWith d invoke p data)))
    {p : Parser} (hp : P p) (data : Octets) : R data (d.invoke p data) := by
  have hrun : ∀ n p data, P p → data.length < n → R data (run d n p data) := by
    intro n
    induction n with
    | zero => exact fun _ _ _ hn => absurd hn (Nat.not_lt_zero _)
    | succ n ih =>
      intro p data hp hn
      have hagree : AgreeBelow (data.length - 1) (run d n) (below (data.length - 1) (run d n)) :=
        fun q inner _ hlt => (if_pos hlt).symm
      -- Only fewer octets are handed on, so longer ones may be given up in a way that is recorded.
      rw [run_succ, runWith_eq (hd.imp hfree) (hfree p hp) hagree]
      refine hstep _ (fun q inner hq => ?_) p data hp
      unfold below
      split
      · next hlt => exact ih q inner hq (by omega)
      · exact hfail q inner _
  exact hrun _ p data hp (by omega)

end Dissector

end V2x
