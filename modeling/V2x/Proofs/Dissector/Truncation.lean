import V2x.Proofs.Decode.Cut
import V2x.Proofs.Dissector.Registered

/-!
# Truncated octets

A parser looks only at the octets that it accounts for, and needs all of them (`parseSchema_consumed`). If
some are missing, what it has shown by then is what it would have shown first (`parseSchema_truncated`).
-/

namespace V2x

namespace Schema

/-- Notifications without the container that is left undecoded. -/
def Denm.containers : Components :=
  .required management <|
  .optional situation <|
  .optional location .done

/-- The presence bit of the container that is left undecoded. -/
def Denm.alacarte? (data : Octets) : Option Bool :=
  (Bits.ofOctets data)[2]?

theorem decoded_of_builtIn {schema : Schema} (h : schema ∈ builtIn) :
    schema = Denm.schema ∨ schema.decoded = true :=
  (List.mem_cons.mp h).imp_right fun hmem => List.all_eq_true.mp (by decide) schema hmem

theorem decode_containers (resolve : Resolver) {present : List Bool} (h : present[2]? ≠ some true) :
    Components.decode resolve Denm.schema present =
      Components.decode resolve Denm.containers present := by
  have habsent : present.tail.tail.headD false = false := by
    rw [List.headD_eq_head?_getD, List.head?_eq_getElem?, List.getElem?_tail, List.getElem?_tail]
    cases hbit : present[2]? with
    | none => rfl
    | some b =>
      cases b with
      | false => rfl
      | true => exact absurd hbit h
  simp only [Denm.schema, Denm.containers, Components.decode, habsent]
  rfl

end Schema

theorem Bits.ofOctets_isPrefix {part data : Octets} (h : part <+: data) :
    Bits.ofOctets part <+: Bits.ofOctets data := by
  obtain ⟨more, rfl⟩ := h
  rw [Bits.ofOctets_append]
  exact List.prefix_append _ _

theorem Schema.Denm.alacarte?_of_isPrefix {part data : Octets} (h : part <+: data) (hne : part ≠ []) :
    alacarte? data = alacarte? part := by
  have hpos := List.length_pos_iff.mpr hne
  have hlen : 2 < (Bits.ofOctets part).length := by
    rw [Bits.length_ofOctets]
    omega
  unfold alacarte?
  rw [List.prefix_iff_getElem?.mp (Bits.ofOctets_isPrefix h) 2 hlen, List.getElem?_eq_getElem hlen]

namespace Dissect

theorem schema_containers (resolve : Resolver) {r : Per.Reader} (h : r.rest[2]? ≠ some true)
    (s : Scene) :
    Schema.decode resolve Schema.Denm.schema ⟨r, s⟩ =
      (read (.bits 3) >>= Components.decode resolve Schema.Denm.containers) ⟨r, s⟩ := by
  have hcount : Schema.Denm.schema.optionalCount = 3 := rfl
  rw [Schema.decode, hcount]
  rcases Nat.lt_or_ge r.remaining 3 with hr | hr
  · have hread := read_bits_of_lt hr s
    rw [EStateM.bind_of_error hread, EStateM.bind_of_error hread]
  · have hread := read_bits_of_le hr s
    have habsent : (r.rest.take 3)[2]? ≠ some true := by
      rwa [List.getElem?_take_of_lt (by decide)]
    rw [EStateM.bind_of_ok hread, EStateM.bind_of_ok hread, Schema.decode_containers _ habsent]

variable {body : Dissect Unit} {data part : Octets} {s : Scene}

theorem Agrees.parse (h : Agrees body (.ofOctets data) (.ofOctets part) s) :
    ∃ (o : Except Fault Nat) (after : Scene) (nodes : List Node),
      (∀ n, o = .ok n → n ≤ part.length) ∧ after.tree = s.tree.pushAll nodes ∧
      parse body part s = .of o after ∧ parse body data s = .of o after := by
  obtain ⟨o, k, after, nodes, hk, htree, hpart, hdata⟩ := h
  have hpart' := parse_of hpart
  have hdata' := parse_of hdata
  rw [Per.Reader.consumedOctets_advance] at hpart' hdata'
  rw [Per.Reader.remaining_ofOctets] at hk
  refine ⟨_, after, nodes, fun n hn => ?_, htree, hpart', hdata'⟩
  cases o with
  | error fault => cases hn
  | ok _ =>
    have hconsumed : (k + 7) / 8 = n := Except.ok.inj hn
    omega

theorem Stops.parse (h : Stops body (.ofOctets data) (.ofOctets part) s) :
    ∃ (needed left : Nat) (stopped : Scene) (nodes whole : List Node),
      parse body part s = .error (.incomplete needed left) stopped ∧
      stopped.tree = s.tree.pushAll nodes ∧
      (parse body data s).state.tree = s.tree.pushAll whole ∧ Node.Begins nodes whole ∧
      ∀ n after, parse body data s = .ok n after → part.length < n := by
  obtain ⟨needed, left, stopped, nodes, whole, hstops, hnodes, hwhole, hbegins, hbeyond⟩ := h
  have hdata := parse_of (body ⟨.ofOctets data, s⟩).eq_of
  refine ⟨needed, left, stopped.scene, nodes, whole, parse_of (o := .error _) hstops, hnodes, ?_,
    hbegins, fun n after hok => ?_⟩
  · rw [hdata, EStateM.Result.state_of]
    exact hwhole
  · cases hr : body ⟨.ofOctets data, s⟩ with
    | error fault last =>
      rw [hdata, hr] at hok
      cases hok
    | ok _ last =>
      obtain ⟨k, hk, hreader⟩ := hbeyond () last hr
      rw [hdata, hr] at hok
      cases hok
      rw [Per.Reader.remaining_ofOctets] at hk
      simp only [hreader, Per.Reader.consumedOctets_advance]
      omega

end Dissect

namespace Dissector

variable {d : Dissector} {invoke : Invoke} {schema : Schema} {data part : Octets} {s : Scene}

/-- The decoder of a built-in schema on octets and on a part of them from the front. -/
theorem cut_builtIn (hschema : schema ∈ Schema.builtIn)
    (hcovered : schema = Schema.Denm.schema → Schema.Denm.alacarte? data ≠ some true)
    (hpart : part <+: data) :
    Dissect.Agrees (Schema.decode (resolve d invoke) schema) (.ofOctets data) (.ofOctets part) s ∨
    Dissect.Stops (Schema.decode (resolve d invoke) schema) (.ofOctets data) (.ofOctets part) s := by
  have happends := resolve_appends d invoke
  have hbits := Bits.ofOctets_isPrefix hpart
  have hrest : (Per.Reader.ofOctets part).rest <+: (Per.Reader.ofOctets data).rest := by
    rwa [Per.Reader.rest_ofOctets, Per.Reader.rest_ofOctets]
  rcases Schema.decoded_of_builtIn hschema with rfl | hdecoded
  · have hdata : (Per.Reader.ofOctets data).rest[2]? ≠ some true := by
      rw [Per.Reader.rest_ofOctets]
      exact hcovered rfl
    have hpart' : (Per.Reader.ofOctets part).rest[2]? ≠ some true := by
      intro htrue
      obtain ⟨hlt, hbit⟩ := List.getElem?_eq_some_iff.mp htrue
      exact hdata ((List.prefix_iff_getElem?.mp hrest 2 hlt).trans (congrArg some hbit))
    have hcut := (Dissect.cut_read (.bits 3)).bind
      (Dissect.cut_components happends (c := Schema.Denm.containers) (by decide))
    unfold Dissect.Agrees Dissect.Stops
    rw [Dissect.schema_containers _ hdata, Dissect.schema_containers _ hpart']
    exact hcut _ _ s hrest
  · exact Dissect.cut_schema happends hdecoded _ _ s hrest

theorem parseSchema_of_part (hschema : schema ∈ Schema.builtIn)
    (hcovered : schema = Schema.Denm.schema → Schema.Denm.alacarte? data ≠ some true)
    (hpart : part <+: data) {after : Scene} {n : Nat}
    (h : parseSchema d invoke schema part s = .ok n after) :
    parseSchema d invoke schema data s = .ok n after := by
  rcases cut_builtIn hschema hcovered hpart with hagrees | hstops
  · obtain ⟨o, last, nodes, -, -, hrun, hdata⟩ := hagrees.parse
    exact (hdata.trans hrun.symm).trans h
  · obtain ⟨needed, left, last, nodes, whole, hrun, -⟩ := hstops.parse
    cases h.symm.trans hrun

theorem parseSchema_part (hschema : schema ∈ Schema.builtIn)
    (hcovered : schema = Schema.Denm.schema → Schema.Denm.alacarte? data ≠ some true)
    (hpart : part <+: data) {after : Scene} {n : Nat}
    (h : parseSchema d invoke schema data s = .ok n after) :
    (n ≤ part.length ∧ parseSchema d invoke schema part s = .ok n after) ∨
    (part.length < n ∧ ∃ needed left stopped,
      parseSchema d invoke schema part s = .error (.incomplete needed left) stopped) := by
  rcases cut_builtIn hschema hcovered hpart with hagrees | hstops
  · obtain ⟨o, last, nodes, hfits, -, hrun, hdata⟩ := hagrees.parse
    have hok := (hdata.symm.trans h)
    have houtcome := congrArg EStateM.Result.outcome hok
    rw [EStateM.Result.outcome_of, EStateM.Result.outcome_ok] at houtcome
    exact .inl ⟨hfits n houtcome, hrun.trans hok⟩
  · obtain ⟨needed, left, last, nodes, whole, hrun, -, -, -, hbeyond⟩ := hstops.parse
    exact .inr ⟨hbeyond n after h, needed, left, last, hrun⟩

theorem parseSchema_nil :
    parseSchema d invoke Schema.Denm.schema [] s = .error (.incomplete 3 0) s := rfl

/-- A parser looks only at the octets that it accounts for, and needs all of them: with other octets behind
these it comes to the same in every respect, and with fewer of them it fails for want of octets. -/
theorem parseSchema_consumed (d : Dissector) (invoke : Invoke) {schema : Schema}
    (hschema : schema ∈ Schema.builtIn) {data : Octets}
    (hcovered : schema = Schema.Denm.schema → Schema.Denm.alacarte? data ≠ some true)
    {s after : Scene} {n : Nat} (h : parseSchema d invoke schema data s = .ok n after) :
    n ≤ data.length ∧
      (∀ others, parseSchema d invoke schema (data.take n ++ others) s = .ok n after) ∧
      ∀ m < n, ∃ needed left stopped,
        parseSchema d invoke schema (data.take m) s = .error (.incomplete needed left) stopped := by
  have hparts : ∀ m, _ := fun m => parseSchema_part hschema hcovered (List.take_prefix m data) h
  have hfits : n ≤ data.length := by
    rcases hparts data.length with ⟨hle, -⟩ | ⟨-, needed, left, stopped, hrun⟩
    · rwa [List.take_length] at hle
    · rw [List.take_length, h] at hrun
      cases hrun
  have hfront : parseSchema d invoke schema (data.take n) s = .ok n after := by
    rcases hparts n with ⟨-, hrun⟩ | ⟨hlt, -⟩
    · exact hrun
    · rw [List.length_take] at hlt
      omega
  refine ⟨hfits, fun others => ?_, fun m hm => ?_⟩
  · refine parseSchema_of_part hschema ?_ (List.prefix_append _ others) hfront
    -- The presence bit is in the first octet, which is among those accounted for.
    rintro rfl
    have hne : data.take n ≠ [] := by
      intro hnil
      rw [hnil, parseSchema_nil] at hfront
      cases hfront
    rw [Schema.Denm.alacarte?_of_isPrefix (List.prefix_append _ others) hne,
      ← Schema.Denm.alacarte?_of_isPrefix (List.take_prefix n data) hne]
    exact hcovered rfl
  · rcases hparts m with ⟨hle, -⟩ | ⟨-, hrun⟩
    · rw [List.length_take] at hle
      omega
    · exact hrun

theorem parseSchema_consumed_zeros :
    let parse := parseSchema (empty {}) (empty {}).invoke Schema.Denm.schema
    let data : Octets := List.replicate 40 0
    let s : Scene := { tree := Node.leaf "DENM" .none }
    ∃ after, parse data s = .ok 34 after ∧ 34 ≤ data.length ∧
      (∀ others, parse (data.take 34 ++ others) s = .ok 34 after) ∧
      ∀ m < 34, ∃ needed left stopped,
        parse (data.take m) s = .error (.incomplete needed left) stopped := by
  intro parse data s
  have houtcome : (parse data s).outcome = .ok 34 := by decide +kernel
  obtain ⟨after, h⟩ := EStateM.Result.exists_of_outcome houtcome
  exact ⟨after, h, parseSchema_consumed _ _ (by simp [Schema.builtIn]) (fun _ => by decide) h⟩

/-- What has been shown when the octets end comes first in what is shown for all of them, field by field and
whatever the run on all of them comes to. -/
theorem parseSchema_truncated (d : Dissector) (invoke : Invoke) {schema : Schema}
    (hschema : schema ∈ Schema.builtIn) {data : Octets}
    (hcovered : schema = Schema.Denm.schema → Schema.Denm.alacarte? data ≠ some true)
    {m : Nat} {s stopped : Scene} {fault : Fault}
    (h : parseSchema d invoke schema (data.take m) s = .error fault stopped) :
    ∃ nodes whole, stopped.tree = s.tree.pushAll nodes ∧
      (parseSchema d invoke schema data s).state.tree = s.tree.pushAll whole ∧
      Node.outlineIn 0 nodes <+: Node.outlineIn 0 whole := by
  rcases cut_builtIn hschema hcovered (List.take_prefix m data) with hagrees | hstops
  · obtain ⟨o, after, nodes, -, htree, hpart, hdata⟩ := hagrees.parse
    have hstopped := congrArg EStateM.Result.state (hpart.symm.trans h)
    rw [EStateM.Result.state_of, EStateM.Result.state_error] at hstopped
    subst hstopped
    refine ⟨nodes, nodes, htree, ?_, List.prefix_rfl⟩
    rw [parseSchema, hdata, EStateM.Result.state_of, htree]
  · obtain ⟨needed, left, last, nodes, whole, hpart, hnodes, hwhole, hbegins, -⟩ := hstops.parse
    cases h.symm.trans hpart
    exact ⟨nodes, whole, hnodes, hwhole, hbegins 0⟩

theorem parseSchema_truncated_zeros :
    let parse := parseSchema (empty {}) (empty {}).invoke Schema.Denm.schema
    let data : Octets := List.replicate 40 0
    let s : Scene := { tree := Node.leaf "DENM" .none }
    ∃ fault stopped, parse (data.take 20) s = .error fault stopped ∧
      ∃ nodes whole, stopped.tree = s.tree.pushAll nodes ∧
        (parse data s).state.tree = s.tree.pushAll whole ∧
        Node.outlineIn 0 nodes <+: Node.outlineIn 0 whole := by
  intro parse data s
  have houtcome : (parse (data.take 20) s).outcome = .error (.incomplete 31 19) := by decide +kernel
  obtain ⟨stopped, h⟩ := EStateM.Result.exists_of_outcome houtcome
  exact ⟨_, stopped, h,
    parseSchema_truncated _ _ (by simp [Schema.builtIn]) (fun _ => by decide) h⟩

end Dissector

end V2x
