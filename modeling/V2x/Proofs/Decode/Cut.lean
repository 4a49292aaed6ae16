import V2x.Proofs.Decode.Frame
import V2x.Proofs.Per.Built
import V2x.Proofs.Tree.Outline

/-!
# Octets that end early

Two runs of one decoder are compared, on a reader and on one that ends early. Either the second run does
what the first one does, or it stops for want of bits: then it has shown a part of what the first one shows,
and the first one needs bits beyond that end (`cut_schema`).
-/

namespace V2x

def Operation.isUndecoded : Operation → Bool
  | .undecoded _ _ => true
  | _ => false

/-- Whether no part is left undecoded. -/
def Components.decoded (c : Components) : Bool :=
  c.operations.all fun op => !op.isUndecoded

namespace Dissect

variable {α β : Type}

/-- The runs on both readers take the same bits and come to the same. -/
def Agrees (m : Dissect α) (r t : Per.Reader) (s : Scene) : Prop :=
  ∃ (o : Except Fault α) (k : Nat) (after : Scene) (nodes : List Node),
    k ≤ t.remaining ∧ after.tree = s.tree.pushAll nodes ∧
    m ⟨t, s⟩ = .of o ⟨t.advance k, after⟩ ∧ m ⟨r, s⟩ = .of o ⟨r.advance k, after⟩

/-- On `t` bits are missing. The run on `r` shows what has been shown by then and perhaps more, and comes to
a value beyond the end of `t` only. -/
def Stops (m : Dissect α) (r t : Per.Reader) (s : Scene) : Prop :=
  ∃ (needed left : Nat) (stopped : State) (nodes whole : List Node),
    m ⟨t, s⟩ = .error (.incomplete needed left) stopped ∧
    stopped.scene.tree = s.tree.pushAll nodes ∧
    (m ⟨r, s⟩).state.scene.tree = s.tree.pushAll whole ∧ Node.Begins nodes whole ∧
    ∀ a after, m ⟨r, s⟩ = .ok a after → ∃ k, t.remaining < k ∧ after.reader = r.advance k

def Cut (m : Dissect α) : Prop :=
  ∀ (r t : Per.Reader) (s : Scene), t.rest <+: r.rest → Agrees m r t s ∨ Stops m r t s

variable {m : Dissect α} {f : α → Dissect β} {r t : Per.Reader} {s : Scene}

theorem Cut.appends (h : Cut m) (s : State) :
    ∃ nodes, (m s).state.scene.tree = s.scene.tree.pushAll nodes := by
  rcases h s.reader s.reader s.scene List.prefix_rfl with
    ⟨o, k, after, nodes, -, htree, -, hrun⟩ | ⟨_, _, _, _, whole, -, -, hwhole, -⟩
  · exact ⟨nodes, by rw [hrun, EStateM.Result.state_of, htree]⟩
  · exact ⟨whole, hwhole⟩

theorem Cut.advances (h : Cut m) {s after : State} {a : α} (hrun : m s = .ok a after) :
    ∃ k, k ≤ s.reader.remaining ∧ after.reader = s.reader.advance k := by
  rcases h s.reader s.reader s.scene List.prefix_rfl with
    ⟨o, k, after, nodes, hk, -, -, hagrees⟩ | ⟨_, _, _, _, _, hstops, -⟩
  · have hstate := congrArg EStateM.Result.state (hrun.symm.trans hagrees)
    rw [EStateM.Result.state_of, EStateM.Result.state_ok] at hstate
    exact ⟨k, hk, congrArg State.reader hstate⟩
  · cases hrun.symm.trans hstops

/-! ## Sequences -/

/-- Where the first of two decoders stops, the second one adds to what the whole run shows. -/
theorem Stops.bind (hm : Stops m r t s) (hf : ∀ a, Cut (f a)) : Stops (m >>= f) r t s := by
  obtain ⟨needed, left, stopped, nodes, whole, hstops, hnodes, hwhole, hbegins, hbeyond⟩ := hm
  cases hr : m ⟨r, s⟩ with
  | error fault after =>
    rw [hr] at hwhole
    refine ⟨needed, left, stopped, nodes, whole, EStateM.bind_of_error hstops _, hnodes, ?_, hbegins, ?_⟩
    · rw [EStateM.bind_of_error hr]
      exact hwhole
    · intro b last hlast
      rw [EStateM.bind_of_error hr] at hlast
      cases hlast
  | ok a after =>
    rw [hr] at hwhole
    -- The whole run goes on to `f a`, which adds nodes at the end and moves the reader forward only.
    obtain ⟨more, hmore⟩ := (hf a).appends after
    obtain ⟨k, hk, hreader⟩ := hbeyond a after hr
    refine ⟨needed, left, stopped, nodes, whole ++ more, EStateM.bind_of_error hstops _, hnodes, ?_,
      hbegins.append more, ?_⟩
    · rw [EStateM.bind_of_ok hr, hmore, ← Node.pushAll_pushAll]
      exact congrArg (Node.pushAll · more) hwhole
    · intro b last hlast
      rw [EStateM.bind_of_ok hr] at hlast
      obtain ⟨k', -, hreader'⟩ := (hf a).advances hlast
      rw [hreader, Per.Reader.advance_advance] at hreader'
      exact ⟨k + k', by omega, hreader'⟩

theorem Cut.bind (hm : Cut m) (hf : ∀ a, Cut (f a)) : Cut (m >>= f) := by
  intro r t s ht
  rcases hm r t s ht with ⟨o, k, after, nodes, hk, htree, hrunt, hrunr⟩ | hstops
  · cases o with
    | error fault =>
      refine .inl ⟨.error fault, k, after, nodes, hk, htree, ?_, ?_⟩
      · exact EStateM.bind_of_error hrunt _
      · exact EStateM.bind_of_error hrunr _
    | ok a =>
      -- Both runs have taken the same bits, so `f a` again starts on a reader and on a part of it.
      have hmore := Per.Reader.advance_isPrefix ht hk
      rw [EStateM.Result.of_ok] at hrunt hrunr
      rcases hf a (r.advance k) (t.advance k) after hmore with
        ⟨o, k', last, nodes', hk', htree', hrunt', hrunr'⟩ |
        ⟨needed, left, stopped, nodes', whole, hstops, hnodes', hwhole, hbegins, hbeyond⟩
      · rw [Per.Reader.remaining_advance] at hk'
        rw [Per.Reader.advance_advance] at hrunt' hrunr'
        refine .inl ⟨o, k + k', last, nodes ++ nodes', by omega, ?_, ?_, ?_⟩
        · rw [htree', htree, Node.pushAll_pushAll]
        · rw [EStateM.bind_of_ok hrunt, hrunt']
        · rw [EStateM.bind_of_ok hrunr, hrunr']
      · rw [htree, Node.pushAll_pushAll] at hnodes' hwhole
        refine .inr ⟨needed, left, stopped, nodes ++ nodes', nodes ++ whole, ?_, hnodes', ?_,
          hbegins.prepend nodes, fun b last hlast => ?_⟩
        · rw [EStateM.bind_of_ok hrunt, hstops]
        · rw [EStateM.bind_of_ok hrunr, hwhole]
        · rw [EStateM.bind_of_ok hrunr] at hlast
          obtain ⟨k', hk', hreader⟩ := hbeyond b last hlast
          rw [Per.Reader.remaining_advance] at hk'
          rw [Per.Reader.advance_advance] at hreader
          exact ⟨k + k', by omega, hreader⟩
  · exact .inr (hstops.bind hf)

/-! ## Operations -/

theorem cut_of_scene (h : ∀ s : Scene, ∃ (o : Except Fault α) (after : Scene) (nodes : List Node),
    after.tree = s.tree.pushAll nodes ∧ ∀ r, m ⟨r, s⟩ = .of o ⟨r, after⟩) : Cut m := by
  intro r t s _
  obtain ⟨o, after, nodes, htree, hrun⟩ := h s
  exact .inl ⟨o, 0, after, nodes, Nat.zero_le _, htree, hrun t, hrun r⟩

theorem cut_pure (a : α) : Cut (pure a : Dissect α) :=
  cut_of_scene fun s => ⟨.ok a, s, [], (Node.pushAll_nil _).symm, fun _ => rfl⟩

theorem cut_emit (n : Node) : Cut (emit n) :=
  cut_of_scene fun s => ⟨.ok (), s.emit n, [n], Node.push_eq_pushAll _ _, fun _ => rfl⟩

theorem cut_context : Cut context :=
  cut_of_scene fun s => ⟨.ok s.context, s, [], (Node.pushAll_nil _).symm, fun _ => rfl⟩

theorem cut_modifyContext (f : Context → Context) : Cut (modifyContext f) :=
  cut_of_scene fun s => ⟨.ok (), { s with context := f s.context }, [], (Node.pushAll_nil _).symm,
    fun _ => rfl⟩

theorem cut_surely {act : Surely α} (h : ∀ s, ∃ nodes, (act s).2.tree = s.tree.pushAll nodes) :
    Cut (surely act) := by
  refine cut_of_scene fun s => ?_
  obtain ⟨nodes, htree⟩ := h s
  exact ⟨.ok (act s).1, (act s).2, nodes, htree, fun _ => rfl⟩

theorem cut_bits (n : Nat) : Cut (read (.bits n)) := by
  intro r t s ht
  have hsame : s.tree = s.tree.pushAll [] := (Node.pushAll_nil _).symm
  have hlen := ht.length_le
  rw [Per.Reader.length_rest, Per.Reader.length_rest] at hlen
  rcases Nat.lt_or_ge t.remaining n with hn | hn
  · have hwhole : (read (.bits n) ⟨r, s⟩).state.scene.tree = s.tree.pushAll [] := by
      rw [read_eq, EStateM.Result.state_of]
      exact hsame
    refine .inr ⟨n, t.remaining, ⟨t, s⟩, [], [], read_bits_of_lt hn s, hsame, hwhole,
      Node.Begins.refl [], fun a after hread => ?_⟩
    rcases Nat.lt_or_ge r.remaining n with h | h
    · rw [read_bits_of_lt h] at hread
      cases hread
    · rw [read_bits_of_le h] at hread
      cases hread
      exact ⟨n, hn, rfl⟩
  · have htake : r.rest.take n = t.rest.take n := by
      rw [List.prefix_iff_eq_take.mp ht, List.take_take, Per.Reader.length_rest, Nat.min_eq_left hn]
    have hr := read_bits_of_le (Nat.le_trans hn hlen) s
    rw [htake] at hr
    exact .inl ⟨.ok (t.rest.take n), n, s, [], hn, hsame, read_bits_of_le hn s, hr⟩

/-- Reads are sequences of reads of bits. -/
theorem cut_read {read' : Per.Read α} (h : read'.Built) : Cut (read read') := by
  induction h with
  | pure a => exact cut_pure a
  | throw fault =>
    exact cut_of_scene fun s => ⟨.error fault, s, [], (Node.pushAll_nil _).symm, fun _ => rfl⟩
  | bits n => exact cut_bits n
  | bind _ _ ih ihnext =>
    rw [read_bind]
    exact ih.bind ihnext

theorem Cut.under (h : Cut m) (name : String) : Cut (under name m) := by
  intro r t s ht
  rcases h r t (s.descend name) ht with ⟨o, k, after, nodes, hk, htree, hrunt, hrunr⟩ |
    ⟨needed, left, stopped, nodes, whole, hstops, hnodes, hwhole, hbegins, hbeyond⟩
  · exact .inl ⟨o, k, s.ascend after, [(Node.leaf name .none).pushAll nodes], hk,
      congrArg s.tree.push htree, under_of hrunt, under_of hrunr⟩
  · have hrun := under_of (m ⟨r, s.descend name⟩).eq_of
    refine .inr ⟨needed, left, ⟨stopped.reader, s.ascend stopped.scene⟩,
      [(Node.leaf name .none).pushAll nodes], [(Node.leaf name .none).pushAll whole],
      under_of (o := .error _) hstops, congrArg s.tree.push hnodes, ?_, hbegins.under name, ?_⟩
    · rw [hrun, EStateM.Result.state_of]
      exact congrArg s.tree.push hwhole
    · intro a after hok
      cases hr : m ⟨r, s.descend name⟩ with
      | error fault inner =>
        rw [hrun, hr] at hok
        cases hok
      | ok b inner =>
        rw [hrun, hr] at hok
        cases hok
        exact hbeyond a inner hr

theorem cut_causeCode : Cut causeCode :=
  (cut_read (.number 8)).bind fun _ => (cut_modifyContext _).bind fun _ => cut_emit _

theorem cut_subCauseCode : Cut subCauseCode :=
  cut_context.bind fun _ => (cut_read (.number 8)).bind fun _ => cut_emit _

variable {resolve : Resolver}

theorem cut_regionalExtension (h : resolve.Appends) (slot : Slot) :
    Cut (regionalExtension resolve slot) := by
  rw [regionalExtension_eq]
  refine Cut.under (Cut.bind (cut_read (.number 8)) fun n => ?_) _
  refine (cut_emit _).bind fun _ => (cut_read (.openType _)).bind fun payload => ?_
  exact cut_surely fun s => h slot payload _

def Cut.relation (resolve : Resolver) :
    Interpreter.Relation (interpreter resolve) (interpreter resolve) where
  Rel m _ := Cut m
  pure := cut_pure
  bind := Cut.bind
  read := cut_read
  leaf _ _ := cut_emit _
  under name _ _ h := h.under name

theorem cut_perform (h : resolve.Appends) (op : Operation) (hop : op.isUndecoded = false) :
    Cut ((interpreter resolve).perform op) := by
  cases op with
  | shown n => exact cut_emit n
  | causeCode => exact cut_causeCode
  | subCauseCode => exact cut_subCauseCode
  | regionalExtension slot => exact cut_regionalExtension h slot
  | undecoded name remark => cases hop

theorem cut_components (h : resolve.Appends) {c : Components} (hc : c.decoded = true)
    (present : List Bool) : Cut (c.decode resolve present) := by
  rw [← components_eq_decode]
  refine (Cut.relation resolve).components c (fun op hop => cut_perform h op ?_) present
  simpa using List.all_eq_true.mp hc op hop

/-- What a decoder makes of octets that end early, where there is a grammar for every part. -/
theorem cut_schema (h : resolve.Appends) {schema : Schema} (hc : schema.decoded = true) :
    Cut (Schema.decode resolve schema) :=
  (cut_read (.bits _)).bind (cut_components h hc)

end Dissect

end V2x
