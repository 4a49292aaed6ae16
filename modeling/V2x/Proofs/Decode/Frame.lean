import V2x.Proofs.Decode.Simulation

/-!
# What a decoder leaves alone

A decoder adds fields behind those that a node already has, and calls behind those already recorded.
What it adds depends on the octets and on the context, not on the node (`framed_schema`). How it may
change the context is a parameter: with equality, for example, the context stays as it is.
-/

namespace V2x

namespace Node

def pushAll (n : Node) (nodes : List Node) : Node :=
  { n with children := n.children ++ nodes }

@[simp] theorem pushAll_nil (n : Node) : n.pushAll [] = n := by
  cases n
  simp [pushAll]

@[simp] theorem pushAll_pushAll (n : Node) (a b : List Node) :
    (n.pushAll a).pushAll b = n.pushAll (a ++ b) := by
  simp [pushAll]

theorem push_eq_pushAll (n child : Node) : n.push child = n.pushAll [child] := rfl

end Node

namespace Scene

/-- What becomes of a scene: its new context, and what is added to its node and to its calls. -/
structure Change where
  context : Context
  nodes : List Node := []
  calls : List Call := []

def change (s : Scene) (e : Change) : Scene :=
  ⟨e.context, s.tree.pushAll e.nodes, s.calls ++ e.calls⟩

def Change.andThen (e f : Change) : Change :=
  ⟨f.context, e.nodes ++ f.nodes, e.calls ++ f.calls⟩

@[simp] theorem context_change (s : Scene) (e : Change) : (s.change e).context = e.context := rfl

@[simp] theorem change_change (s : Scene) (e f : Change) :
    (s.change e).change f = s.change (e.andThen f) := by
  simp [change, Change.andThen]

theorem change_context (s : Scene) : s.change ⟨s.context, [], []⟩ = s := by
  simp [change]

theorem emit_eq_change (s : Scene) (n : Node) : s.emit n = s.change ⟨s.context, [n], []⟩ := by
  simp [emit, change, Node.push_eq_pushAll]

/-- A node that was filled apart is added as a whole. -/
theorem ascend_change_descend (s : Scene) (name : String) (e : Change) :
    s.ascend ((s.descend name).change e) =
      s.change ⟨e.context, [(Node.leaf name .none).pushAll e.nodes], e.calls⟩ := rfl

end Scene

/-- Ways to change the context: none at all, one after another, and one in which the active region is
set for its duration. -/
structure Context.Tracked (K : Context → Context → Prop) : Prop where
  refl (c : Context) : K c c
  trans {c d e : Context} : K c d → K d e → K c e
  restored {c d : Context} {region : Option Region} :
    K { c with region } d → K c { d with region := c.region }

theorem Context.tracked_eq : Context.Tracked Eq where
  refl _ := rfl
  trans := Eq.trans
  restored h := h ▸ rfl

/-- What is run in a scene changes it in a way that depends on its context only. -/
def Surely.Framed (K : Context → Context → Prop) {α : Type} (act : Surely α) : Prop :=
  ∀ c : Context, ∃ (a : α) (e : Scene.Change), K c e.context ∧
    ∀ s : Scene, s.context = c → act s = (a, s.change e)

def Run.Framed (K : Context → Context → Prop) {α : Type} (run : Run α) : Prop :=
  ∀ c : Context, ∃ (o : Except Fault α) (e : Scene.Change), K c e.context ∧
    ∀ s : Scene, s.context = c → run s = .of o (s.change e)

def Dissect.Framed (K : Context → Context → Prop) {α : Type} (m : Dissect α) : Prop :=
  ∀ (r : Per.Reader) (c : Context), ∃ (o : Except Fault α) (r' : Per.Reader) (e : Scene.Change),
    K c e.context ∧ ∀ s : Scene, s.context = c → m ⟨r, s⟩ = .of o ⟨r', s.change e⟩

/-- Whatever is done with the payload of an extension, the tree keeps what it has. -/
def Resolver.Appends (resolve : Resolver) : Prop :=
  ∀ (slot : Slot) (payload : Octets) (s : Scene),
    ∃ nodes, (resolve slot payload s).2.tree = s.tree.pushAll nodes

namespace Dissect

variable {K : Context → Context → Prop} {α β : Type}

section

variable (hK : Context.Tracked K)
include hK

theorem framed_pure (a : α) : Framed K (pure a : Dissect α) := by
  intro r c
  refine ⟨.ok a, r, ⟨c, [], []⟩, hK.refl c, ?_⟩
  rintro s rfl
  rw [Scene.change_context]
  rfl

theorem Framed.bind {m : Dissect α} {f : α → Dissect β} (hm : Framed K m)
    (hf : ∀ a, Framed K (f a)) : Framed K (m >>= f) := by
  intro r c
  obtain ⟨o, r', e, hKe, hrun⟩ := hm r c
  cases o with
  | error fault =>
    refine ⟨.error fault, r', e, hKe, fun s hs => ?_⟩
    rw [EStateM.bind_of_error (hrun s hs)]
    rfl
  | ok a =>
    obtain ⟨o, r'', e', hKe', hrun'⟩ := hf a r' e.context
    refine ⟨o, r'', e.andThen e', hK.trans hKe hKe', fun s hs => ?_⟩
    rw [EStateM.bind_of_ok (hrun s hs), hrun' _ rfl, Scene.change_change]

theorem framed_read (read' : Per.Read α) : Framed K (read read') := by
  intro r c
  refine ⟨(read' r).outcome, (read' r).state, ⟨c, [], []⟩, hK.refl c, ?_⟩
  rintro s rfl
  rw [Scene.change_context, read_eq]

theorem framed_emit (n : Node) : Framed K (emit n) := by
  intro r c
  refine ⟨.ok (), r, ⟨c, [n], []⟩, hK.refl c, ?_⟩
  rintro s rfl
  rw [← Scene.emit_eq_change]
  rfl

theorem framed_subCauseCode : Framed K subCauseCode := by
  have hcontext : ∀ f : Context → Dissect Unit, (∀ c, Framed K (f c)) →
      Framed K (context >>= f) := by
    intro f hf r c
    obtain ⟨o, r', e, hKe, hrun⟩ := hf c r c
    refine ⟨o, r', e, hKe, ?_⟩
    rintro s rfl
    rw [EStateM.bind_of_ok (show context ⟨r, s⟩ = .ok s.context ⟨r, s⟩ from rfl), hrun s rfl]
  exact hcontext _ fun c => (framed_read hK _).bind hK fun _ => framed_emit hK _

end

theorem Framed.under {m : Dissect α} (h : Framed K m) (name : String) :
    Framed K (under name m) := by
  intro r c
  obtain ⟨o, r', e, hKe, hrun⟩ := h r c
  refine ⟨o, r', ⟨e.context, [(Node.leaf name .none).pushAll e.nodes], e.calls⟩, hKe, ?_⟩
  intro s hs
  rw [← Scene.ascend_change_descend]
  exact under_of (hrun (s.descend name) hs)

theorem framed_surely {act : Surely α} (h : act.Framed K) : Framed K (surely act) := by
  intro r c
  obtain ⟨a, e, hKe, hact⟩ := h c
  refine ⟨.ok a, r, e, hKe, fun s hs => ?_⟩
  unfold surely
  dsimp only
  rw [hact s hs]
  rfl

theorem framed_resolving (hK : Context.Tracked K) {act : Surely Nat} (h : act.Framed K)
    (region : Region) : (resolving act region).Framed K := by
  intro c
  obtain ⟨n, e, hKe, hact⟩ := h { c with region := some region }
  refine ⟨(), ⟨{ e.context with region := c.region }, e.nodes, e.calls⟩, hK.restored hKe, ?_⟩
  rintro s rfl
  unfold resolving
  dsimp only
  rw [hact _ rfl]
  rfl

theorem framed_regionalExtension (hK : Context.Tracked K) {resolve : Resolver}
    (h : ∀ slot payload, (resolve slot payload).Framed K) (slot : Slot) :
    Framed K (regionalExtension resolve slot) := by
  rw [regionalExtension_eq]
  refine Framed.under (Framed.bind hK (framed_read hK _) fun _ => ?_) _
  refine Framed.bind hK (framed_emit hK _) fun _ => ?_
  refine Framed.bind hK (framed_read hK _) fun payload => ?_
  exact framed_surely (framed_resolving hK (h slot payload) _)

theorem framed_causeCode (hK : Context.Tracked K)
    (hcause : ∀ (c : Context) (code : UInt8), K c { c with cause := some code }) :
    Framed K causeCode := by
  refine Framed.bind hK (framed_read hK _) fun n => Framed.bind hK ?_ fun _ => framed_emit hK _
  intro r c
  refine ⟨.ok (), r, ⟨{ c with cause := some (UInt8.ofNat n) }, [], []⟩, hcause c _, ?_⟩
  rintro s rfl
  simp [modifyContext, Scene.change]

/-- Being framed is a relation that ignores the second interpreter. -/
def Framed.simulation (hK : Context.Tracked K) {resolve : Resolver}
    (h : ∀ slot payload, (resolve slot payload).Framed K) :
    Interpreter.Simulation (interpreter resolve) (interpreter resolve) where
  Rel m _ := Framed K m
  pure := framed_pure hK
  bind := Framed.bind hK
  read _ := framed_read hK _
  rest := framed_read hK _
  emit := framed_emit hK
  under name _ _ h := h.under name
  subCauseCode := framed_subCauseCode hK
  regionalExtension := framed_regionalExtension hK h

/-- A decoder adds nodes and calls behind those already there. -/
theorem framed_schema (hK : Context.Tracked K) {resolve : Resolver}
    (h : ∀ slot payload, (resolve slot payload).Framed K) (schema : Schema)
    (hcause : schema.causeFree = true ∨ ∀ (c : Context) code, K c { c with cause := some code }) :
    Framed K (Schema.decode resolve schema) := by
  rw [← schema_eq_decode]
  exact (Framed.simulation hK h).schema schema (hcause.imp_right (framed_causeCode hK))

end Dissect

end V2x
