import V2x.Proofs.Decode.Frame
import V2x.Proofs.Decode.Survey
import V2x.Proofs.Tree.Prune

/-!
# Payloads of extensions stay among themselves

Two runs of one decoder, on octets that differ in the content of extensions only, come to the same
result at the same place and in the same context, and show the same but for that content
(`isolated_schema`). The survey of the first run says which bits these are.
-/

namespace V2x

namespace Per.Reader

/-- Readers with as many bits left, which agree wherever the mask says `false`. -/
def AlikeBut (mask : List Bool) (r t : Reader) : Prop :=
  t.remaining = r.remaining ∧ ∀ i : Nat, mask[i]? = some false → t.rest[i]? = r.rest[i]?

variable {mask more : List Bool} {r t : Reader}

theorem AlikeBut.left (h : AlikeBut (mask ++ more) r t) : AlikeBut mask r t := by
  refine ⟨h.1, fun i hi => h.2 i ?_⟩
  rw [List.getElem?_append_left (List.getElem?_eq_some_iff.mp hi).1, hi]

theorem AlikeBut.right (h : AlikeBut (mask ++ more) r t) :
    AlikeBut more (r.advance mask.length) (t.advance mask.length) := by
  refine ⟨by rw [remaining_advance, remaining_advance, h.1], fun i hi => ?_⟩
  rw [rest_advance, rest_advance, List.getElem?_drop, List.getElem?_drop]
  refine h.2 _ ?_
  rw [List.getElem?_append_right (Nat.le_add_right _ _), Nat.add_sub_cancel_left, hi]

theorem AlikeBut.take {k : Nat} (h : AlikeBut (List.replicate k false) r t) :
    t.rest.take k = r.rest.take k := by
  refine List.ext_getElem? fun i => ?_
  by_cases hi : i < k
  · rw [List.getElem?_take_of_lt hi, List.getElem?_take_of_lt hi]
    refine h.2 i ?_
    rw [List.getElem?_replicate, if_pos hi]
  · rw [List.getElem?_take_eq_none (Nat.le_of_not_lt hi),
      List.getElem?_take_eq_none (Nat.le_of_not_lt hi)]

theorem advance_inj {m n : Nat} (h : r.advance m = r.advance n) : m = n := by
  have := congrArg position h
  rw [position_advance, position_advance] at this
  omega

end Per.Reader

namespace Dissect

variable {α β : Type}

/-- In every context, runs from readers alike but for the mask of the survey end as the survey does, with
nodes that are in the relation `Q`. -/
def Isolated (Q : List Node → List Node → Prop) (m : Dissect α) (v : Survey α) : Prop :=
  ∀ r : Per.Reader, ∃ k : Nat, (v r).reader = r.advance k ∧
    (∀ a, (v r).result = .ok a → (v r).mask.length = k) ∧
    ∀ (t : Per.Reader) (c : Context), r.AlikeBut (v r).mask t → ∃ e f : Scene.Change,
      f.context = e.context ∧ Q e.nodes f.nodes ∧
      ∀ s : Scene, s.context = c →
        m ⟨r, s⟩ = .of (v r).result ⟨r.advance k, s.change e⟩ ∧
        m ⟨t, s⟩ = .of (v r).result ⟨t.advance k, s.change f⟩

variable {P Q R : List Node → List Node → Prop}

/-- Nodes in sequence: `P` for those of the first run, `Q` for those of the second. -/
theorem Isolated.bind {m : Dissect α} {v : Survey α} {f : α → Dissect β} {g : α → Survey β}
    (hm : Isolated P m v) (hf : ∀ a, Isolated Q (f a) (g a)) (hstop : ∀ a b, P a b → R a b)
    (hmore : ∀ a b x y, P a b → Q x y → R (a ++ x) (b ++ y)) :
    Isolated R (m >>= f) (v >>= g) := by
  intro r
  obtain ⟨k, hreader, hlen, hruns⟩ := hm r
  cases hv : v r with
  | mk result reader mask =>
    rw [hv] at hreader hlen hruns
    obtain rfl : reader = r.advance k := hreader
    cases result with
    | error fault =>
      rw [Survey.bind_of_error hv]
      refine ⟨k, rfl, ?_, ?_⟩
      · intro a h
        cases h
      · intro t c ht
        obtain ⟨e, e', hcontext, hP, hrun⟩ := hruns t c ht
        refine ⟨e, e', hcontext, hstop _ _ hP, fun s hs => ?_⟩
        obtain ⟨hr, ht⟩ := hrun s hs
        exact ⟨EStateM.bind_of_error hr _, EStateM.bind_of_error ht _⟩
    | ok a =>
      obtain rfl : mask.length = k := hlen a rfl
      obtain ⟨k', hreader', hlen', hruns'⟩ := hf a (r.advance mask.length)
      rw [Survey.bind_of_ok hv]
      refine ⟨mask.length + k', by rw [hreader', Per.Reader.advance_advance], fun b hb => ?_,
        fun t c ht => ?_⟩
      · rw [List.length_append, hlen' b hb]
      · obtain ⟨e, f₁, hcontext, hP, hrun⟩ := hruns t c ht.left
        obtain ⟨e', f₂, hcontext', hQ, hrun'⟩ := hruns' _ e.context ht.right
        refine ⟨e.andThen e', f₁.andThen f₂, hcontext', hmore _ _ _ _ hP hQ, fun s hs => ?_⟩
        obtain ⟨hr, ht⟩ := hrun s hs
        rw [EStateM.bind_of_ok hr, EStateM.bind_of_ok ht, (hrun' _ rfl).1,
          (hrun' _ hcontext).2, Scene.change_change, Scene.change_change,
          Per.Reader.advance_advance, Per.Reader.advance_advance]
        exact ⟨rfl, rfl⟩

theorem Isolated.imp {m : Dissect α} {v : Survey α} (h : Isolated P m v)
    (hPQ : ∀ a b, P a b → Q a b) : Isolated Q m v := by
  intro r
  obtain ⟨k, hreader, hlen, hruns⟩ := h r
  refine ⟨k, hreader, hlen, fun t c ht => ?_⟩
  obtain ⟨e, f, hcontext, hP, hrun⟩ := hruns t c ht
  exact ⟨e, f, hcontext, hPQ _ _ hP, hrun⟩

/-! ## Operations -/

abbrev Both (nodes : List Node) (a b : List Node) : Prop :=
  a = nodes ∧ b = nodes

theorem Both.eq {nodes a b : List Node} (h : Both nodes a b) : a = b :=
  h.1.trans h.2.symm

theorem isolated_pure (a : α) : Isolated (Both []) (pure a : Dissect α) (pure a) := by
  refine fun r => ⟨0, rfl, fun _ _ => rfl, fun t c ht => ?_⟩
  refine ⟨⟨c, [], []⟩, ⟨c, [], []⟩, rfl, ⟨rfl, rfl⟩, ?_⟩
  rintro s rfl
  rw [Scene.change_context]
  exact ⟨rfl, rfl⟩

theorem isolated_emit (n : Node) : Isolated (Both [n]) (emit n) (pure ()) := by
  refine fun r => ⟨0, rfl, fun _ _ => rfl, fun t c ht => ?_⟩
  refine ⟨⟨c, [n], []⟩, ⟨c, [n], []⟩, rfl, ⟨rfl, rfl⟩, ?_⟩
  rintro s rfl
  rw [← Scene.emit_eq_change]
  exact ⟨rfl, rfl⟩

theorem Isolated.emit_bind {n : Node} {m : Dissect α} {v : Survey α} (h : Isolated P m v)
    (hstop : Q [n] [n]) (hmore : ∀ x y, P x y → Q (n :: x) (n :: y)) :
    Isolated Q (do emit n; m) v := by
  rw [← Survey.pure_bind () fun _ => v]
  refine (isolated_emit n).bind (fun _ => h) ?_ ?_
  · rintro a b ⟨rfl, rfl⟩
    exact hstop
  · rintro a b x y ⟨rfl, rfl⟩ hxy
    exact hmore x y hxy

/-- A read on which readers alike in what it takes agree. -/
theorem isolated_read_of_local {read' : Per.Read α}
    (h : ∀ r : Per.Reader, ∃ k, (read' r).state = r.advance k ∧
      ∀ t : Per.Reader, t.remaining = r.remaining → t.rest.take k = r.rest.take k →
        read' t = .of (read' r).outcome (t.advance k)) :
    Isolated (Both []) (read read') (Survey.read read') := by
  intro r
  obtain ⟨k, hstate, hlocal⟩ := h r
  have hmask : (Survey.read read' r).mask = List.replicate k false := by
    unfold Survey.read
    dsimp only
    rw [hstate, Per.Reader.position_advance, Nat.add_sub_cancel_left]
  refine ⟨k, hstate, fun _ _ => by rw [hmask, List.length_replicate], fun t c ht => ?_⟩
  rw [hmask] at ht
  refine ⟨⟨c, [], []⟩, ⟨c, [], []⟩, rfl, ⟨rfl, rfl⟩, ?_⟩
  rintro s rfl
  rw [Scene.change_context, read_eq, read_eq, hlocal t ht.1 ht.take, hstate]
  simp [Survey.read]

theorem isolated_read {read' : Per.Read α} (h : read'.Built) :
    Isolated (Both []) (read read') (Survey.read read') := by
  refine isolated_read_of_local fun r => ?_
  obtain ⟨k, -, hstate, hlocal⟩ := h.local r
  exact ⟨k, hstate, hlocal⟩

theorem isolated_rest : Isolated (Both []) (read .rest) (Survey.read .rest) := by
  refine isolated_read_of_local fun r => ⟨r.remaining, ?_, fun t ht hbits => ?_⟩
  · rw [Per.Read.rest_eq]
    rfl
  · rw [← Per.Reader.length_rest, List.take_length, Per.Reader.length_rest, ← ht,
      ← Per.Reader.length_rest, List.take_length] at hbits
    rw [Per.Read.rest_eq, Per.Read.rest_eq, hbits, ht]
    rfl

theorem Isolated.context {f : Context → Dissect α} {v : Survey α}
    (h : ∀ c, Isolated Q (f c) v) : Isolated Q (context >>= f) v := by
  intro r
  obtain ⟨k, hreader, hlen, -⟩ := h {} r
  refine ⟨k, hreader, hlen, fun t c ht => ?_⟩
  obtain ⟨k', hreader', -, hruns⟩ := h c r
  obtain rfl : k' = k := Per.Reader.advance_inj (hreader'.symm.trans hreader)
  obtain ⟨e, f', hcontext, hQ, hrun⟩ := hruns t c ht
  refine ⟨e, f', hcontext, hQ, ?_⟩
  rintro s rfl
  exact hrun s rfl

theorem isolated_subCauseCode : Isolated Eq subCauseCode Survey.interpreter.subCauseCode := by
  refine Isolated.context fun c => Isolated.bind (isolated_read (.number 8)) (fun n =>
    (isolated_emit (Node.leaf c.vocabulary.field (.enumerated (UInt8.ofNat n).toNat
      (c.vocabulary.label? (UInt8.ofNat n))))).imp fun _ _ => Both.eq) ?_ ?_
  · exact fun _ _ => Both.eq
  · rintro a b x y ⟨rfl, rfl⟩ rfl
    rfl

theorem Isolated.under {m : Dissect α} {v : Survey α} (h : Isolated Q m v) (name : String) :
    Isolated (fun a b => ∃ x y, Q x y ∧ a = [(Node.leaf name .none).pushAll x] ∧
      b = [(Node.leaf name .none).pushAll y]) (under name m) v := by
  intro r
  obtain ⟨k, hreader, hlen, hruns⟩ := h r
  refine ⟨k, hreader, hlen, fun t c ht => ?_⟩
  obtain ⟨e, f, hcontext, hQ, hrun⟩ := hruns t c ht
  refine ⟨⟨e.context, [(Node.leaf name .none).pushAll e.nodes], e.calls⟩,
    ⟨f.context, [(Node.leaf name .none).pushAll f.nodes], f.calls⟩, hcontext,
    ⟨_, _, hQ, rfl, rfl⟩, fun s hs => ?_⟩
  obtain ⟨hr, ht⟩ := hrun (s.descend name) hs
  rw [← Scene.ascend_change_descend, ← Scene.ascend_change_descend]
  exact ⟨under_of hr, under_of ht⟩

/-- Whatever is done with the content, the reader ends behind it, and the context is as it was. -/
theorem isolated_content {act : Octets → Surely Unit}
    (hact : ∀ payload, (act payload).Framed Eq) (count : Nat) :
    Isolated (fun _ _ => True)
      (do
        let payload ← read (.octets count)
        surely (act payload))
      (do
        let _ ← Survey.content count) := by
  intro r
  rcases Nat.lt_or_ge r.remaining (8 * count) with h | h
  · rw [Survey.bind_of_error (Survey.content_of_lt h)]
    refine ⟨0, rfl, ?_, fun t c ht => ?_⟩
    · intro a ha
      cases ha
    · refine ⟨⟨c, [], []⟩, ⟨c, [], []⟩, rfl, trivial, ?_⟩
      rintro s rfl
      have hlt : t.remaining < 8 * count := ht.1 ▸ h
      have hfault := Per.Read.octets_of_lt hlt
      rw [ht.1] at hfault
      rw [Scene.change_context, EStateM.bind_eq, EStateM.bind_eq, read_eq, read_eq,
        Per.Read.octets_of_lt h, hfault]
      exact ⟨rfl, rfl⟩
  · obtain ⟨data, hdata⟩ := Per.Read.octets_of_le h
    rw [Survey.bind_of_ok (Survey.content_of_ok hdata)]
    refine ⟨8 * count, rfl, fun _ _ => ?_, fun t c ht => ?_⟩
    · show (List.replicate _ true ++ []).length = _
      rw [List.append_nil, List.length_replicate, Nat.min_eq_left h]
    · have hle : 8 * count ≤ t.remaining := ht.1 ▸ h
      obtain ⟨data', hdata'⟩ := Per.Read.octets_of_le hle
      obtain ⟨_, e, rfl, hrun⟩ := hact data c
      obtain ⟨_, f, hcontext, hrun'⟩ := hact data' e.context
      refine ⟨e, f, hcontext.symm, trivial, fun s hs => ?_⟩
      rw [EStateM.bind_eq, EStateM.bind_eq, read_eq, read_eq, hdata, hdata']
      unfold surely
      dsimp only [EStateM.Result.outcome_ok, EStateM.Result.state_ok, EStateM.Result.of_ok]
      rw [hrun s hs, hrun' s hs]
      exact ⟨rfl, rfl⟩

open Node (pruneAll pruneAll_append)

/-- The same but for the content of extensions. -/
def Alike (a b : List Node) : Prop :=
  pruneAll a = pruneAll b

theorem Both.alike {nodes a b : List Node} (h : Both nodes a b) : Alike a b := by
  rw [h.1, h.2]
  exact Eq.refl _

theorem Alike.append {a b x y : List Node} (h : Alike a b) (h' : Alike x y) :
    Alike (a ++ x) (b ++ y) := by
  unfold Alike at *
  rw [pruneAll_append, pruneAll_append, h, h']

theorem Alike.under {a b : List Node} (h : Alike a b) (name : String) :
    Alike [(Node.leaf name .none).pushAll a] [(Node.leaf name .none).pushAll b] := by
  unfold Alike at *
  simp only [pruneAll, Node.pushAll, Node.leaf, Node.prune, List.nil_append, h]

/-- Behind its region, the content of an extension is pruned. -/
theorem alike_regionalExtension (region : Node) (h : region.name = "regionId")
    (a b : List Node) :
    Alike [(Node.leaf "RegionalExtension" .none).pushAll (region :: a)]
      [(Node.leaf "RegionalExtension" .none).pushAll (region :: b)] := by
  have hname : region.prune.name = "regionId" := by
    rw [← h]
    cases region
    rfl
  unfold Alike
  simp only [pruneAll, Node.pushAll, Node.leaf, Node.prune, List.nil_append, if_true,
    Node.throughRegion, hname]

theorem isolated_payload {act : Octets → Surely Unit}
    (hact : ∀ payload, (act payload).Framed Eq) :
    Isolated (fun _ _ => True)
      (do
        let payload ← read (.openType "regExtValue")
        surely (act payload))
      (do
        let count ← Survey.read (.length "regExtValue")
        let _ ← Survey.content count) := by
  have hopen : read (.openType "regExtValue") =
      (read (.length "regExtValue") >>= fun count => read (.octets count)) := read_bind _ _
  rw [hopen, bind_assoc]
  exact (isolated_read (.length _)).bind (isolated_content hact) (fun _ _ _ => trivial)
    fun _ _ _ _ _ _ => trivial

theorem isolated_regionalExtension {resolve : Resolver}
    (h : ∀ slot payload, (resolve slot payload).Framed Eq) (slot : Slot) :
    Isolated Alike (regionalExtension resolve slot)
      (Survey.interpreter.regionalExtension slot) := by
  let Under (a b : List Node) : Prop :=
    Alike [(Node.leaf "RegionalExtension" .none).pushAll a]
      [(Node.leaf "RegionalExtension" .none).pushAll b]
  have hregion (region : Region) : Isolated Under
      (do
        emit (Node.leaf "regionId" (.enumerated region.toNat (Region.label? region)))
        let payload ← read (.openType "regExtValue")
        surely (resolving (resolve slot payload) region))
      (do
        let count ← Survey.read (.length "regExtValue")
        let _ ← Survey.content count) := by
    refine Isolated.emit_bind (isolated_payload fun payload =>
      framed_resolving Context.tracked_eq (h slot payload) region) (Eq.refl _) fun x y _ => ?_
    exact alike_regionalExtension _ rfl x y
  have hbody := (isolated_read (.number 8)).bind (R := Under)
    (fun n => hregion (UInt8.ofNat n))
  rw [regionalExtension_eq]
  refine ((hbody ?_ ?_).under "RegionalExtension").imp ?_
  · rintro a b ⟨rfl, rfl⟩
    exact Eq.refl _
  · rintro a b x y ⟨rfl, rfl⟩ hxy
    exact hxy
  · rintro a b ⟨x, y, hxy, rfl, rfl⟩
    exact hxy

/-- Being isolated relates a decoder to its survey. -/
def Isolated.simulation {resolve : Resolver}
    (h : ∀ slot payload, (resolve slot payload).Framed Eq) :
    Interpreter.Simulation (interpreter resolve) Survey.interpreter where
  Rel m v := Isolated Alike m v
  pure a := (isolated_pure a).imp fun _ _ => Both.alike
  bind hm hf := hm.bind hf (fun _ _ => id) fun _ _ _ _ => Alike.append
  read h := (isolated_read h).imp fun _ _ => Both.alike
  rest := isolated_rest.imp fun _ _ => Both.alike
  emit n := (isolated_emit n).imp fun _ _ => Both.alike
  under name _ _ h := by
    refine (h.under name).imp ?_
    rintro _ _ ⟨x, y, hxy, rfl, rfl⟩
    exact hxy.under name
  subCauseCode := isolated_subCauseCode.imp fun a b hab => hab ▸ Eq.refl _
  regionalExtension := isolated_regionalExtension h

theorem isolated_schema {resolve : Resolver}
    (h : ∀ slot payload, (resolve slot payload).Framed Eq) {schema : Schema}
    (hschema : schema.causeFree = true) :
    Isolated Alike (Schema.decode resolve schema) (Survey.interpreter.schema schema) := by
  rw [← schema_eq_decode]
  exact (Isolated.simulation h).schema schema (.inl hschema)

end Dissect

end V2x
