import V2x.Dissector.Basic
import V2x.Proofs.Decode.ActiveRegion
import V2x.Proofs.Decode.Frame

/-!
# Extensions without a region

What becomes of an extension without a region is a matter of policy. Two decoders that differ in this policy
only come to the same value at the same place and in the same context, and show the same but for the content
of such extensions (`twin_schema`).
-/

namespace V2x

namespace Node

/-- How an extension is shown: its region, and then what has become of its content. -/
def extension (region : Region) (content : List Node) : Node :=
  { name := "RegionalExtension", children := ofRegion region :: content }

/-- What is shown of the content of an extension without a region. -/
def unregioned : NoRegion → Slot → Octets → List Node
  | .skip, slot, payload =>
    if payload.isEmpty then []
    else [(raw payload).addNote ⟨.note, s!"{slot.name} value without a region is not decoded"⟩]
  | .attempt, _, payload => [raw payload]

/-- The same nodes, but for extensions without a region, whose content is skipped on the left and attempted on
the right. -/
inductive Twins : List Node → List Node → Prop
  | nil : Twins [] []
  | cons (name : String) (value : Value) (notes : List Note) {a b more others : List Node} :
    Twins a b → Twins more others →
      Twins (⟨name, value, notes, a⟩ :: more) (⟨name, value, notes, b⟩ :: others)
  | extension (slot : Slot) (payload : Octets) {more others : List Node} : Twins more others →
      Twins (extension .unspecified (unregioned .skip slot payload) :: more)
        (extension .unspecified (unregioned .attempt slot payload) :: others)

mutual

theorem Twins.refl : ∀ nodes : List Node, Twins nodes nodes
  | [] => .nil
  | n :: more => Twins.append_singleton n (refl more)

theorem Twins.append_singleton : ∀ (n : Node) {more others : List Node}, Twins more others →
    Twins (n :: more) (n :: others)
  | ⟨name, value, notes, children⟩, _, _, h => .cons name value notes (refl children) h

end

theorem Twins.append {a b x y : List Node} (h : Twins a b) (h' : Twins x y) :
    Twins (a ++ x) (b ++ y) := by
  induction h with
  | nil => exact h'
  | cons name value notes hchildren _ _ ih => exact .cons name value notes hchildren ih
  | extension slot payload _ ih => exact .extension slot payload ih

/-- A node of which both sides show the same but for extensions below it. -/
structure Twin (n m : Node) : Prop where
  name : m.name = n.name
  value : m.value = n.value
  notes : m.notes = n.notes
  children : Twins n.children m.children

theorem Twin.refl (n : Node) : n.Twin n :=
  ⟨rfl, rfl, rfl, .refl _⟩

theorem Twin.twins {n m : Node} (h : n.Twin m) : Twins [n] [m] := by
  obtain ⟨name, value, notes, a⟩ := n
  obtain ⟨name', value', notes', b⟩ := m
  obtain ⟨rfl, rfl, rfl, hchildren⟩ := h
  exact .cons _ _ _ hchildren .nil

theorem Twin.push {n m child other : Node} (h : n.Twin m) (hchild : Twins [child] [other]) :
    (n.push child).Twin (m.push other) :=
  ⟨h.name, h.value, h.notes, h.children.append hchild⟩

/-! ## Trees without such content -/

/-- The nodes up to the first region identifier if this names no region, else all of them. -/
def throughNoRegion : List Node → List Node
  | [] => []
  | n :: more =>
    if n.name = "regionId" then (if n.value.toNat? = some 0 then [n] else n :: more)
    else n :: throughNoRegion more

mutual

/-- Takes from every extension without a region what follows its region identifier. -/
def pruneUnregioned : Node → Node
  | ⟨name, value, notes, children⟩ =>
    ⟨name, value, notes,
      if name = "RegionalExtension" then throughNoRegion (pruneAllUnregioned children)
      else pruneAllUnregioned children⟩

def pruneAllUnregioned : List Node → List Node
  | [] => []
  | n :: more => pruneUnregioned n :: pruneAllUnregioned more

end

theorem pruneUnregioned_extension (content : List Node) :
    (extension .unspecified content).pruneUnregioned = extension .unspecified [] := by
  simp [extension, ofRegion, leaf, pruneUnregioned, pruneAllUnregioned, throughNoRegion, Value.toNat?,
    Region.unspecified]

theorem Twins.pruned {a b : List Node} (h : Twins a b) : pruneAllUnregioned a = pruneAllUnregioned b := by
  induction h with
  | nil => rfl
  | cons name value notes _ _ ihchildren ih =>
    simp only [pruneAllUnregioned, pruneUnregioned, ihchildren, ih]
  | extension slot payload _ ih =>
    simp only [pruneAllUnregioned, pruneUnregioned_extension, ih]

theorem Twin.pruned {n m : Node} (h : n.Twin m) : n.pruneUnregioned = m.pruneUnregioned := by
  have hall := h.twins.pruned
  simp only [pruneAllUnregioned, List.cons.injEq, and_true] at hall
  exact hall

end Node

/-! ## Scenes side by side -/

/-- Scenes that differ in nothing but what their trees show of extensions without a region. -/
structure Scene.Twins (s t : Scene) : Prop where
  context : t.context = s.context
  calls : t.calls = s.calls
  tree : s.tree.Twin t.tree

namespace Scene.Twins

variable {s t s' t' : Scene}

theorem emit_twins (h : s.Twins t) {n m : Node} (hnodes : Node.Twins [n] [m]) :
    (s.emit n).Twins (t.emit m) :=
  ⟨h.context, h.calls, h.tree.push hnodes⟩

theorem emit (h : s.Twins t) (n : Node) : (s.emit n).Twins (t.emit n) :=
  h.emit_twins (.refl _)

theorem descend (h : s.Twins t) (name : String) : (s.descend name).Twins (t.descend name) :=
  ⟨h.context, h.calls, .refl _⟩

theorem ascend (h : s.Twins t) (hinner : s'.Twins t') : (s.ascend s').Twins (t.ascend t') :=
  ⟨hinner.context, hinner.calls, h.tree.push hinner.tree.twins⟩

theorem modify (h : s.Twins t) (f : Context → Context) :
    Scene.Twins { s with context := f s.context } { t with context := f t.context } :=
  ⟨congrArg f h.context, h.calls, h.tree⟩

theorem announced (h : s.Twins t) (region : Region) : (s.announced region).Twins (t.announced region) :=
  ((h.descend _).emit _).modify fun c => { c with region := some region }

theorem withdraw (h : s.Twins t) (hinner : s'.Twins t') : (s.withdraw s').Twins (t.withdraw t') := by
  unfold Scene.withdraw
  rw [h.context]
  exact h.ascend (hinner.modify fun c => { c with region := s.context.region })

end Scene.Twins

def Surely.Twin {α : Type} (left right : Surely α) : Prop :=
  ∀ s t : Scene, s.Twins t → (right t).1 = (left s).1 ∧ (left s).2.Twins (right t).2

def Run.Twin {α : Type} (left right : Run α) : Prop :=
  ∀ s t : Scene, s.Twins t → ∃ (o : Except Fault α) (s' t' : Scene),
    left s = .of o s' ∧ right t = .of o t' ∧ s'.Twins t'

/-- The content of extensions without a region is shown as the policy has it, and nothing else is done. -/
def Resolver.Shows (policy : NoRegion) (resolve : Resolver) : Prop :=
  ∀ (slot : Slot) (payload : Octets) (s : Scene), s.context.region = some .unspecified →
    resolve slot payload s =
      (payload.length, { s with tree := s.tree.pushAll (Node.unregioned policy slot payload) })

/-- Resolvers under the two policies. Where there is a region they keep scenes alike. -/
structure Resolver.Twins (left right : Resolver) : Prop where
  skip : left.Shows .skip
  attempt : right.Shows .attempt
  regioned (slot : Slot) (payload : Octets) {region : Region} {s t : Scene} :
    s.context.region = some region → region ≠ .unspecified → s.Twins t →
      (left slot payload s).2.Twins (right slot payload t).2

namespace Dissect

variable {α β : Type}

/-- On the same bits and in scenes alike, the decoders come to the same value or fault at the same place. -/
def Twin (m n : Dissect α) : Prop :=
  ∀ (r : Per.Reader) (s t : Scene), s.Twins t →
    ∃ (o : Except Fault α) (r' : Per.Reader) (s' t' : Scene),
      m ⟨r, s⟩ = .of o ⟨r', s'⟩ ∧ n ⟨r, t⟩ = .of o ⟨r', t'⟩ ∧ s'.Twins t'

theorem twin_pure (a : α) : Twin (pure a : Dissect α) (pure a) :=
  fun r s t h => ⟨.ok a, r, s, t, rfl, rfl, h⟩

theorem Twin.bind {m n : Dissect α} {f g : α → Dissect β} (h : Twin m n)
    (hnext : ∀ a, Twin (f a) (g a)) : Twin (m >>= f) (n >>= g) := by
  intro r s t hst
  obtain ⟨o, r', s', t', hm, hn, hst'⟩ := h r s t hst
  cases o with
  | error fault =>
    exact ⟨.error fault, r', s', t', EStateM.bind_of_error hm f, EStateM.bind_of_error hn g, hst'⟩
  | ok a =>
    rw [EStateM.bind_of_ok hm, EStateM.bind_of_ok hn]
    exact hnext a r' s' t' hst'

theorem twin_read (r : Per.Read α) : Twin (read r) (read r) :=
  fun reader s t h => ⟨_, _, s, t, read_eq r ⟨reader, s⟩, read_eq r ⟨reader, t⟩, h⟩

theorem twin_emit (n : Node) : Twin (emit n) (emit n) :=
  fun r _ _ h => ⟨.ok (), r, _, _, rfl, rfl, h.emit n⟩

theorem twin_context : Twin context context := by
  intro r s t h
  refine ⟨.ok s.context, r, s, t, rfl, ?_, h⟩
  rw [← h.context]
  rfl

theorem twin_modifyContext (f : Context → Context) : Twin (modifyContext f) (modifyContext f) :=
  fun r _ _ h => ⟨.ok (), r, _, _, rfl, rfl, h.modify f⟩

theorem Twin.under {m n : Dissect α} (h : Twin m n) (name : String) :
    Twin (under name m) (under name n) := by
  intro r s t hst
  obtain ⟨o, r', s', t', hm, hn, hinner⟩ := h r _ _ (hst.descend name)
  exact ⟨o, r', _, _, under_of hm, under_of hn, hst.ascend hinner⟩

theorem twin_surely {left right : Surely α} (h : left.Twin right) :
    Twin (surely left) (surely right) := by
  intro r s t hst
  obtain ⟨hvalue, hscene⟩ := h s t hst
  refine ⟨.ok (left s).1, r, (left s).2, (right t).2, rfl, ?_, hscene⟩
  rw [← hvalue]
  rfl

theorem twin_run {left right : Run α} (h : left.Twin right) : Twin (run left) (run right) := by
  intro r s t hst
  obtain ⟨o, s', t', hleft, hright, hscene⟩ := h s t hst
  refine ⟨o, r, s', t', ?_, ?_, hscene⟩
  · unfold run
    dsimp only
    rw [hleft]
    cases o <;> rfl
  · unfold run
    dsimp only
    rw [hright]
    cases o <;> rfl

/-- An extension without a region is shown as the policy has it. Whatever else the resolver might do is not
done. -/
theorem regionalExtension_of_shows {policy : NoRegion} {resolve : Resolver} (h : resolve.Shows policy)
    (slot : Slot) {r r₁ r₂ : Per.Reader} {n : Nat} {payload : Octets}
    (hregion : Per.Read.number 8 r = .ok n r₁) (hn : UInt8.ofNat n = Region.unspecified)
    (hpayload : Per.Read.openType "regExtValue" r₁ = .ok payload r₂) (s : Scene) :
    regionalExtension resolve slot ⟨r, s⟩ =
      .ok () ⟨r₂, s.emit (Node.extension .unspecified (Node.unregioned policy slot payload))⟩ := by
  rw [regionalExtension_run, hregion]
  dsimp only
  rw [hpayload, hn]
  dsimp only
  rw [h slot payload _ rfl]
  rfl

theorem twin_regionalExtension {left right : Resolver} (h : left.Twins right) (slot : Slot) :
    Twin (regionalExtension left slot) (regionalExtension right slot) := by
  intro r s t hst
  cases hregion : Per.Read.number 8 r with
  | error fault r₁ =>
    refine ⟨.error fault, r₁, _, _, ?_, ?_, hst.ascend (hst.descend "RegionalExtension")⟩ <;>
      rw [regionalExtension_run, hregion] <;> rfl
  | ok n r₁ =>
    cases hpayload : Per.Read.openType "regExtValue" r₁ with
    | error fault r₂ =>
      have hshown := hst.ascend ((hst.descend "RegionalExtension").emit (Node.ofRegion (UInt8.ofNat n)))
      refine ⟨.error fault, r₂, _, _, ?_, ?_, hshown⟩ <;>
        rw [regionalExtension_run, hregion] <;> dsimp only <;> rw [hpayload] <;> rfl
    | ok payload r₂ =>
      by_cases hn : UInt8.ofNat n = Region.unspecified
      · exact ⟨.ok (), r₂, _, _, regionalExtension_of_shows h.skip slot hregion hn hpayload s,
          regionalExtension_of_shows h.attempt slot hregion hn hpayload t,
          hst.emit_twins (.extension slot payload .nil)⟩
      · have hresolved := h.regioned slot payload rfl hn (hst.announced (UInt8.ofNat n))
        refine ⟨.ok (), r₂, _, _, ?_, ?_, hst.withdraw hresolved⟩ <;>
          rw [regionalExtension_run, hregion] <;> dsimp only <;> rw [hpayload] <;> rfl

def Twin.simulation {left right : Resolver} (h : left.Twins right) :
    Interpreter.Simulation (interpreter left) (interpreter right) where
  Rel := Twin
  pure := twin_pure
  bind := Twin.bind
  read _ := twin_read _
  rest := twin_read _
  emit := twin_emit
  under name _ _ h := h.under name
  subCauseCode := twin_context.bind fun _ => (twin_read _).bind fun _ => twin_emit _
  regionalExtension := twin_regionalExtension h

theorem twin_causeCode : Twin causeCode causeCode :=
  (twin_read _).bind fun _ => (twin_modifyContext _).bind fun _ => twin_emit _

theorem twin_field {left right : Resolver} (h : left.Twins right) (field : Field) :
    Twin (field.decode left) (field.decode right) := by
  rw [← field_eq_decode, ← field_eq_decode]
  exact (Twin.simulation h).field field twin_causeCode

theorem twin_schema {left right : Resolver} (h : left.Twins right) (schema : Schema) :
    Twin (Schema.decode left schema) (Schema.decode right schema) := by
  rw [← schema_eq_decode, ← schema_eq_decode]
  exact (Twin.simulation h).schema schema (.inr twin_causeCode)

end Dissect

end V2x
