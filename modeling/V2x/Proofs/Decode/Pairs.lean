import V2x.Proofs.Decode.Causes
import V2x.Proofs.Tree.Preorder

/-!
# Nodes that stand for causes

Where a schema gives certain names to causes only, each node with such a name shows a cause and a sub-cause
that fits it, whatever the context was before (`pairs_schema`).
-/

namespace V2x

namespace Node

/-- If the node has one of the names and two children, they are a cause and its sub-cause. -/
def Paired (names : List String) (n : Node) : Prop :=
  n.name ∈ names → 2 ≤ n.children.length →
    ∃ cause code, n.children[0]? = some (ofCause cause) ∧
      n.children[1]? = some (ofSubCause (Cause.vocabularyFor cause) code)

theorem paired_of_children_eq_nil {names : List String} {n : Node} (h : n.children = []) :
    n.Paired names := by
  intro _ hlen
  rw [h] at hlen
  cases hlen

/-- The name of the sub-cause tells the cause beside it. -/
theorem Paired.cause_of_field {names : List String} {n sub : Node} (h : n.Paired names)
    (hname : n.name ∈ names) (hsub : n.children[1]? = some sub) {cause : Cause} (hcause : cause ∈ Cause.all)
    (hfield : sub.name = cause.vocabulary.field) : n.children[0]? = some (ofCause cause.code) := by
  have hlen : 2 ≤ n.children.length := (List.getElem?_eq_some_iff.mp hsub).1
  obtain ⟨code, value, hfirst, hsecond⟩ := h hname hlen
  obtain rfl := Option.some.inj (hsub.symm.trans hsecond)
  rw [hfirst, (Cause.field_vocabularyFor_iff hcause code).mp hfield]

end Node

def Components.isCause : Components → Bool
  | .required .causeCode (.required .subCauseCode .done) => true
  | _ => false

theorem Components.eq_of_isCause {c : Components} (h : c.isCause = true) :
    c = .required .causeCode (.required .subCauseCode .done) := by
  unfold isCause at h
  split at h
  · rfl
  · cases h

mutual

/-- Whether the names belong to causes only, and no extension can bring others with such a name. -/
def Field.keepsForCauses (names : List String) : Field → Bool
  | .sequence name extensible c =>
    if names.contains name then extensible && c.isCause else c.keepsForCauses names
  | .sequenceOf name _ _ element => !names.contains name && element.keepsForCauses names
  | .choice name _ _ a => !names.contains name && a.keepsForCauses names
  | .undecoded name _ => !names.contains name
  | .regionalExtension _ | .regionalList _ => false
  | .causeCode | .subCauseCode | .integer _ _ _ | .extensibleInteger _ _ _ | .enumerated _ _ _
  | .octets _ _ | .unsupported _ => true

def Components.keepsForCauses (names : List String) : Components → Bool
  | .done => true
  | .required f more | .optional f more => f.keepsForCauses names && more.keepsForCauses names
  | .defaulted f absent more =>
    f.keepsForCauses names && absent.children.isEmpty && more.keepsForCauses names

def Alternatives.keepsForCauses (names : List String) : Alternatives → Bool
  | .done => true
  | .or f more => f.keepsForCauses names && more.keepsForCauses names

end

/-- Of the nodes that are added, at any depth, those with one of the names are paired. -/
def Scene.Pairs (names : List String) (s after : Scene) : Prop :=
  ∃ nodes, after.tree = s.tree.pushAll nodes ∧ ∀ n ∈ Node.preorderIn nodes, n.Paired names

namespace Scene.Pairs

variable {names : List String} {s t u : Scene}

theorem of_same (h : t.tree = s.tree) : s.Pairs names t :=
  ⟨[], h.trans (Node.pushAll_nil _).symm, nofun⟩

theorem trans (h : s.Pairs names t) (h' : t.Pairs names u) : s.Pairs names u := by
  obtain ⟨nodes, htree, hpaired⟩ := h
  obtain ⟨more, hmore, hpaired'⟩ := h'
  refine ⟨nodes ++ more, by rw [hmore, htree, Node.pushAll_pushAll], fun n hn => ?_⟩
  rw [Node.preorderIn_append] at hn
  exact (List.mem_append.mp hn).elim (hpaired n) (hpaired' n)

theorem ascend {name : String} (hname : name ∉ names) (h : (s.descend name).Pairs names t) :
    s.Pairs names (s.ascend t) := by
  obtain ⟨nodes, htree, hpaired⟩ := h
  refine ⟨[(Node.leaf name .none).pushAll nodes], congrArg s.tree.push htree, fun n hn => ?_⟩
  rw [Node.preorderIn_singleton] at hn
  rcases List.mem_cons.mp hn with rfl | hmore
  · exact fun h => absurd h hname
  · exact hpaired n hmore

end Scene.Pairs

namespace Dissect

variable {α β : Type} {names : List String}

def Pairs (names : List String) (m : Dissect α) : Prop :=
  Moves (Scene.Pairs names) m

theorem pairs_of_same {m : Dissect α} (h : ∀ s, (m s).state.scene.tree = s.scene.tree) :
    Pairs names m :=
  fun s => .of_same (h s)

theorem Pairs.bind {m : Dissect α} {f : α → Dissect β} (hm : Pairs names m)
    (hf : ∀ a, Pairs names (f a)) : Pairs names (m >>= f) :=
  Moves.bind (R := Scene.Pairs names) Scene.Pairs.trans hm hf

theorem pairs_read (r : Per.Read α) : Pairs names (read r) :=
  moves_read (fun _ => .of_same rfl) r

theorem Pairs.under {m : Dissect α} (h : Pairs names m) {name : String} (hname : name ∉ names) :
    Pairs names (under name m) :=
  Moves.under (Scene.Pairs.ascend hname) h

theorem pairs_emit {n : Node} (h : n.children = []) : Pairs names (emit n) := by
  intro s
  refine ⟨[n], Node.push_eq_pushAll _ _, fun m hm => ?_⟩
  rw [Node.preorderIn_singleton, h] at hm
  cases List.mem_singleton.mp hm
  exact Node.paired_of_children_eq_nil h

theorem pairs_times {body : Dissect Unit} (h : Pairs names body) (n : Nat) :
    Pairs names (times n body) := by
  induction n with
  | zero => exact pairs_of_same fun _ => rfl
  | succ n ih => exact h.bind fun _ => ih

theorem pairs_additions (extended : Bool) : Pairs names (additions extended) := by
  intro s
  obtain ⟨o, k, data, hrun⟩ := additions_run extended s.reader s.scene
  refine ⟨data.map Node.raw, ?_, fun n hn => ?_⟩
  · rw [hrun, EStateM.Result.state_of]
    rfl
  · refine Node.paired_of_children_eq_nil (Node.mem_preorderIn_of_leaves (fun m hm => ?_) hn)
    obtain ⟨d, -, rfl⟩ := List.mem_map.mp hm
    rfl

theorem pairs_cause (resolve : Resolver) (name : String) :
    Pairs names ((Schema.cause name).decode resolve) := by
  intro s
  obtain ⟨o, k, children, hrun, hshown⟩ := cause_run resolve name s.reader s.scene
  refine ⟨[{ name, children }], ?_, fun n hn => ?_⟩
  · rw [hrun, EStateM.Result.state_of]
    rfl
  · rw [Node.preorderIn_singleton] at hn
    rcases List.mem_cons.mp hn with rfl | hmore
    · intro _ hlen
      cases hshown with
      | nothing fault => exact absurd hlen (Nat.not_succ_le_zero 1)
      | code fault h => exact absurd hlen (Nat.not_succ_le_self 1)
      | @whole cause subCause _ _ h => exact ⟨cause, subCause, rfl, rfl⟩
    · exact Node.paired_of_children_eq_nil (Node.mem_preorderIn_of_leaves hshown.leaves hmore)

mutual

theorem pairs_field (resolve : Resolver) : ∀ f : Field, f.keepsForCauses names = true →
    Pairs names (f.decode resolve)
  | .integer _ _ _, _ | .extensibleInteger _ _ _, _ | .octets _ _, _ =>
    (pairs_read _).bind fun _ => pairs_emit rfl
  | .enumerated _ _ _, _ =>
    ((pairs_read _).bind fun _ => (pairs_emit rfl).bind fun _ => pairs_of_same fun _ => rfl).bind
      fun _ => pairs_of_same fun _ => rfl
  | .causeCode, _ =>
    (pairs_read _).bind fun _ => (pairs_of_same fun _ => rfl).bind fun _ => pairs_emit rfl
  | .subCauseCode, _ =>
    (pairs_of_same fun _ => rfl).bind fun _ => (pairs_read _).bind fun _ => pairs_emit rfl
  | .sequence name extensible c, h => by
    unfold Field.keepsForCauses at h
    split at h
    · obtain ⟨rfl, hc⟩ := Bool.and_eq_true_iff.mp h
      rw [Components.eq_of_isCause hc]
      exact pairs_cause resolve name
    · next hname =>
      unfold Field.decode
      refine Pairs.under ((pairs_read _).bind fun _ => (pairs_read _).bind fun present => ?_)
        (by simpa using hname)
      exact (pairs_components resolve c h present).bind fun _ => pairs_additions _
  | .sequenceOf name lower upper element, h => by
    obtain ⟨hname, helement⟩ := Bool.and_eq_true_iff.mp h
    unfold Field.decode
    refine Pairs.under ((pairs_read _).bind fun count => ?_) (by simpa using hname)
    exact pairs_times (pairs_field resolve element helement) count
  | .choice name type extensible a, h => by
    obtain ⟨hname, ha⟩ := Bool.and_eq_true_iff.mp h
    unfold Field.decode
    refine Pairs.under ((pairs_read _).bind fun index => ?_) (by simpa using hname)
    exact pairs_alternatives resolve type extensible index a ha index
  | .unsupported _, _ => pairs_of_same fun _ => rfl
  | .undecoded name remark, h => by
    refine (pairs_read _).bind fun _ => (pairs_emit rfl).under ?_
    simpa [Field.keepsForCauses] using h

theorem pairs_components (resolve : Resolver) : ∀ c : Components, c.keepsForCauses names = true →
    ∀ present : List Bool, Pairs names (c.decode resolve present)
  | .done, _, _ => pairs_of_same fun _ => rfl
  | .required f more, h, present => by
    obtain ⟨hf, hmore⟩ := Bool.and_eq_true_iff.mp h
    exact (pairs_field resolve f hf).bind fun _ => pairs_components resolve more hmore present
  | .optional f more, h, present => by
    obtain ⟨hf, hmore⟩ := Bool.and_eq_true_iff.mp h
    unfold Components.decode
    have hrest := pairs_components resolve more hmore present.tail
    split
    · exact (pairs_field resolve f hf).bind fun _ => hrest
    · exact hrest
  | .defaulted f absent more, h, present => by
    obtain ⟨hfirst, hmore⟩ := Bool.and_eq_true_iff.mp h
    obtain ⟨hf, habsent⟩ := Bool.and_eq_true_iff.mp hfirst
    unfold Components.decode
    have hrest := pairs_components resolve more hmore present.tail
    split
    · exact (pairs_field resolve f hf).bind fun _ => hrest
    · exact (pairs_emit (List.isEmpty_iff.mp habsent)).bind fun _ => hrest

theorem pairs_alternatives (resolve : Resolver) (type : String) (extensible : Bool) (index : Nat) :
    ∀ a : Alternatives, a.keepsForCauses names = true → ∀ left : Nat,
      Pairs names (a.decode resolve type extensible index left)
  | .done, _, _ => by
    unfold Alternatives.decode
    split
    · exact (pairs_read _).bind fun _ => pairs_emit rfl
    · exact pairs_of_same fun _ => rfl
  | .or f more, h, 0 => pairs_field resolve f (Bool.and_eq_true_iff.mp h).1
  | .or f more, h, left + 1 =>
    pairs_alternatives resolve type extensible index more (Bool.and_eq_true_iff.mp h).2 left

end

theorem pairs_schema (resolve : Resolver) {schema : Schema}
    (h : Components.keepsForCauses names schema = true) : Pairs names (Schema.decode resolve schema) :=
  (pairs_read _).bind (pairs_components resolve schema h)

end Dissect

end V2x
