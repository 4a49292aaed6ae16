import V2x.Proofs.Decode.Isolation
import V2x.Proofs.Per.RoundTrip
import V2x.Proofs.Tree.Preorder

/-!
# What a message consists of

A message is a list of items, each of which is written in some way and shown in some way. Groups of
items become groups of fields; bits that only tell how to read on are written and not shown. The payload of
an extension goes to the resolver; what else is shown of a message does not depend on it (`playIn_alike`).
-/

namespace V2x

/-- Does nothing with the payloads of extensions. -/
def Resolver.silent : Resolver :=
  fun _ payload s => (payload.length, s)

def Call.handed (c : Call) : Parser × Octets :=
  (c.parser, c.span)

/-- For every extension, the resolver hands on just what is given for its key and payload. -/
def Resolver.HandsOn (resolve : Resolver)
    (handed : ExtensionKey × Octets → List (Parser × Octets)) : Prop :=
  ∀ (slot : Slot) (payload : Octets) (region : Region) (s : Scene), s.context.region = some region →
    (resolve slot payload s).2.calls.map Call.handed =
      s.calls.map Call.handed ++ handed (⟨region, slot⟩, payload)

open Per (WriteStep)

inductive Item
  /-- Tells how to read on. -/
  | control (steps : List WriteStep)
  | field (name : String) (value : Value) (shown : value ≠ .none) (notes : List Note)
      (steps : List WriteStep)
  /-- A cause code, which gives the sub-cause code that follows its name. -/
  | causeCode (code : UInt8)
  /-- A region and what the grammar of the slot describes. -/
  | extension (slot : Slot) (region : Region) (payload : Per.Short)
  | group (name : String) (items : List Item)

namespace Item

mutual

/-- What is written. -/
def steps : Item → List WriteStep
  | .control steps => steps
  | .field _ _ _ _ steps => steps
  | .causeCode code => [.bits code.toNat 8]
  | .extension _ region payload => [.bits region.toNat 8, .openType payload]
  | .group _ items => stepsIn items

def stepsIn : List Item → List WriteStep
  | [] => []
  | item :: more => item.steps ++ stepsIn more

end

def causeEntry (code : UInt8) : String × Value :=
  ("causeCode", .enumerated code.toNat (Cause.label? code))

def regionEntry (region : Region) : String × Value :=
  ("regionId", .enumerated region.toNat (Region.label? region))

mutual

/-- What is shown, without what the grammars of extensions make of their payloads. -/
def nodes : Item → List Node
  | .control _ => []
  | .field name value _ notes _ => [{ name, value, notes }]
  | .causeCode code => [Node.leaf (causeEntry code).1 (causeEntry code).2]
  | .extension _ region _ =>
    [{ name := "RegionalExtension"
       children := [Node.leaf (regionEntry region).1 (regionEntry region).2] }]
  | .group name items => [{ name, children := nodesIn items }]

def nodesIn : List Item → List Node
  | [] => []
  | item :: more => item.nodes ++ nodesIn more

end

mutual

def entries : Item → List (String × Value)
  | .control _ => []
  | .field name value _ _ _ => [(name, value)]
  | .causeCode code => [causeEntry code]
  | .extension _ region _ => [regionEntry region]
  | .group _ items => entriesIn items

def entriesIn : List Item → List (String × Value)
  | [] => []
  | item :: more => item.entries ++ entriesIn more

end

mutual

/-- The payloads to be resolved, each for its region and its slot. -/
def requests : Item → List (ExtensionKey × Octets)
  | .extension slot region payload => [(⟨region, slot⟩, payload)]
  | .group _ items => requestsIn items
  | .control _ | .field _ _ _ _ _ | .causeCode _ => []

def requestsIn : List Item → List (ExtensionKey × Octets)
  | [] => []
  | item :: more => item.requests ++ requestsIn more

end

variable (resolve : Resolver)

mutual

/-- What becomes of a scene in which the item is shown. The payload of an extension is resolved behind its
region, while that region is the active one. -/
def play : Item → Scene → Scene
  | .control _, s => s
  | .field name value _ notes _, s => s.emit { name, value, notes }
  | .causeCode code, s =>
    Scene.emit (Node.leaf (causeEntry code).1 (causeEntry code).2)
      { s with context := { s.context with cause := some code } }
  | .extension slot region payload, s =>
    let inner := (s.descend "RegionalExtension").emit
      (Node.leaf (regionEntry region).1 (regionEntry region).2)
    s.ascend (Dissect.resolving (resolve slot payload) region inner).2
  | .group name items, s => s.ascend (playIn items (s.descend name))

def playIn : List Item → Scene → Scene
  | [], s => s
  | item :: more, s => playIn more (item.play s)

end

@[simp] theorem stepsIn_append (a b : List Item) : stepsIn (a ++ b) = stepsIn a ++ stepsIn b := by
  induction a with
  | nil => simp [stepsIn]
  | cons item a ih => simp [stepsIn, ih]

theorem playIn_append (a b : List Item) (s : Scene) :
    playIn resolve (a ++ b) s = playIn resolve b (playIn resolve a s) := by
  induction a generalizing s with
  | nil => rfl
  | cons item a ih => exact ih (item.play resolve s)

mutual

/-- The fields in which there is something to read are those of the item, in its order. -/
theorem entries_nodes : ∀ item : Item, Node.entries item.nodes = item.entries
  | .control _ => rfl
  | .field name _ shown notes _ => Node.entries_field name shown notes
  | .causeCode code =>
    Node.entries_field "causeCode" (show (causeEntry code).2 ≠ .none from nofun) []
  | .extension _ region _ =>
    (Node.entries_group _ _).trans
      (Node.entries_field "regionId" (show (regionEntry region).2 ≠ .none from nofun) [])
  | .group name items => (Node.entries_group name _).trans (entries_nodesIn items)

theorem entries_nodesIn : ∀ items : List Item, Node.entries (nodesIn items) = entriesIn items
  | [] => rfl
  | item :: more => by
    rw [nodesIn, Node.entries_append, entries_nodes item, entries_nodesIn more, entriesIn]

end

mutual

/-- Without resolving, showing an item adds its fields and changes nothing else but the context. -/
theorem play_silent : ∀ (item : Item) (s : Scene),
    ∃ c, item.play .silent s = s.change ⟨c, item.nodes, []⟩
  | .control _, s => ⟨s.context, s.change_context.symm⟩
  | .field _ _ _ _ _, s => ⟨s.context, s.emit_eq_change _⟩
  | .causeCode code, s =>
    ⟨{ s.context with cause := some code }, Scene.emit_eq_change _ _⟩
  | .extension _ region _, s => by
    refine ⟨s.context, ?_⟩
    rw [play, Scene.emit_eq_change]
    exact s.ascend_change_descend _ ⟨s.context, [Node.leaf _ _], []⟩
  | .group name items, s => by
    obtain ⟨c, hc⟩ := playIn_silent items (s.descend name)
    refine ⟨c, ?_⟩
    rw [play, hc, Scene.ascend_change_descend]
    rfl

theorem playIn_silent : ∀ (items : List Item) (s : Scene),
    ∃ c, playIn .silent items s = s.change ⟨c, nodesIn items, []⟩
  | [], s => ⟨s.context, s.change_context.symm⟩
  | item :: more, s => by
    obtain ⟨c, hc⟩ := play_silent item s
    obtain ⟨c', hc'⟩ := playIn_silent more (s.change ⟨c, item.nodes, []⟩)
    refine ⟨c', ?_⟩
    rw [playIn, hc, hc', Scene.change_change]
    rfl

end

variable {resolve}

mutual

theorem play_alike (h : resolve.Appends) : ∀ (item : Item) (s : Scene),
    ∃ nodes, (item.play resolve s).tree = s.tree.pushAll nodes ∧ Dissect.Alike nodes item.nodes
  | .control _, s => ⟨[], (Node.pushAll_nil _).symm, rfl⟩
  | .field _ _ _ _ _, s => ⟨_, Node.push_eq_pushAll _ _, rfl⟩
  | .causeCode _, s => ⟨_, Node.push_eq_pushAll _ _, rfl⟩
  | .extension slot region payload, s => by
    let inner := (s.descend "RegionalExtension").emit
      (Node.leaf (regionEntry region).1 (regionEntry region).2)
    obtain ⟨content, hcontent⟩ := h slot payload
      { inner with context := { inner.context with region := some region } }
    refine ⟨[inner.tree.pushAll content], ?_, ?_⟩
    · exact (congrArg s.tree.push hcontent).trans (Node.push_eq_pushAll _ _)
    · exact Dissect.alike_regionalExtension (Node.leaf (regionEntry region).1 _) rfl content []
  | .group name items, s => by
    obtain ⟨nodes, hnodes, halike⟩ := playIn_alike h items (s.descend name)
    refine ⟨[(Node.leaf name .none).pushAll nodes], ?_, halike.under name⟩
    exact (congrArg s.tree.push hnodes).trans (Node.push_eq_pushAll _ _)

/-- Showing items adds their fields, and whatever the resolver adds to extensions behind their regions. -/
theorem playIn_alike (h : resolve.Appends) : ∀ (items : List Item) (s : Scene),
    ∃ nodes, (playIn resolve items s).tree = s.tree.pushAll nodes ∧
      Dissect.Alike nodes (nodesIn items)
  | [], s => ⟨[], (Node.pushAll_nil _).symm, rfl⟩
  | item :: more, s => by
    obtain ⟨nodes, hnodes, halike⟩ := play_alike h item s
    obtain ⟨nodes', hnodes', halike'⟩ := playIn_alike h more (item.play resolve s)
    refine ⟨nodes ++ nodes', ?_, halike.append halike'⟩
    rw [playIn, hnodes', hnodes, Node.pushAll_pushAll]

end

variable {handed : ExtensionKey × Octets → List (Parser × Octets)}

mutual

theorem play_handed (h : resolve.HandsOn handed) : ∀ (item : Item) (s : Scene),
    (item.play resolve s).calls.map Call.handed =
      s.calls.map Call.handed ++ item.requests.flatMap handed
  | .control _, _ => (List.append_nil _).symm
  | .field _ _ _ _ _, _ => (List.append_nil _).symm
  | .causeCode _, _ => (List.append_nil _).symm
  | .extension slot region payload, s => by
    rw [requests, List.flatMap_singleton]
    exact h slot payload region _ rfl
  | .group _ items, s => playIn_handed h items (s.descend _)

/-- What is handed on for items is what is handed on for their payloads, in their order. -/
theorem playIn_handed (h : resolve.HandsOn handed) : ∀ (items : List Item) (s : Scene),
    (playIn resolve items s).calls.map Call.handed =
      s.calls.map Call.handed ++ (requestsIn items).flatMap handed
  | [], _ => (List.append_nil _).symm
  | item :: more, s => by
    rw [playIn, playIn_handed h more, play_handed h item, requestsIn, List.flatMap_append,
      List.append_assoc]

end

end Item

end V2x
