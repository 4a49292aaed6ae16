import V2x.Proofs.Decode.Relation

/-!
# How scenes grow

A scene grows by nodes and by calls. A relation between earlier and later scenes that the nodes of a decoder
keep, and that its resolver keeps, holds from before a decoder to after it (`Growth.moves_schema`).
-/

namespace V2x

/-- A relation that does not look at the context, that nodes keep if they are quiet, and that holds of a whole
node if it holds of what is filled into it. -/
structure Growth where
  Rel : Scene → Scene → Prop
  quiet : Node → Prop
  of_same {s t : Scene} : t.tree = s.tree → t.calls = s.calls → Rel s t
  trans {s t u : Scene} : Rel s t → Rel t u → Rel s u
  emit {n : Node} (s : Scene) : quiet n → Rel s (s.emit n)
  ascend {s t : Scene} {name : String} : Rel (s.descend name) t → Rel s (s.ascend t)
  leaf (name : String) (value : Value) : quiet (Node.leaf name value)
  remark (data : Octets) (remark : String) : quiet ((Node.raw data).addNote ⟨.note, remark⟩)

namespace Growth

open Dissect

variable (G : Growth) {α β : Type}

theorem moves_of_same {m : Dissect α}
    (h : ∀ s, (m s).state.scene.tree = s.scene.tree ∧ (m s).state.scene.calls = s.scene.calls) :
    Moves G.Rel m :=
  fun s => G.of_same (h s).1 (h s).2

theorem bind {m : Dissect α} {f : α → Dissect β} (hm : Moves G.Rel m)
    (hf : ∀ a, Moves G.Rel (f a)) : Moves G.Rel (m >>= f) :=
  Moves.bind (R := G.Rel) G.trans hm hf

theorem moves_pure (a : α) : Moves G.Rel (pure a : Dissect α) :=
  G.moves_of_same fun _ => ⟨rfl, rfl⟩

theorem moves_read (r : Per.Read α) : Moves G.Rel (read r) :=
  Dissect.moves_read (fun _ => G.of_same rfl rfl) r

theorem moves_emit {n : Node} (h : G.quiet n) : Moves G.Rel (Dissect.emit n) :=
  fun s => G.emit s.scene h

theorem moves_leaf (name : String) (value : Value) :
    Moves G.Rel (Dissect.emit (Node.leaf name value)) :=
  G.moves_emit (G.leaf name value)

theorem under {name : String} {m : Dissect α} (h : Moves G.Rel m) :
    Moves G.Rel (Dissect.under name m) :=
  Moves.under (R := G.Rel) G.ascend h

theorem moves_surely {act : Surely α} (h : Surely.Moves G.Rel act) :
    Moves G.Rel (Dissect.surely act) :=
  fun s => h s.scene

theorem moves_run {act : Run α} (h : Run.Moves G.Rel act) : Moves G.Rel (Dissect.run act) := by
  intro s
  have hact := h s.scene
  unfold Dissect.run
  cases hr : act s.scene with
  | ok a scene =>
    rw [hr] at hact
    exact hact
  | error fault scene =>
    rw [hr] at hact
    exact hact

def relation (resolve : Resolver) :
    Interpreter.Relation (interpreter resolve) (interpreter resolve) where
  Rel m _ := Moves G.Rel m
  pure := G.moves_pure
  bind := G.bind
  read _ := G.moves_read _
  leaf := G.moves_leaf
  under _ _ _ h := G.under h

variable {resolve : Resolver} (h : ∀ slot payload, Surely.Moves G.Rel (resolve slot payload))
include h

theorem moves_regionalExtension (slot : Slot) : Moves G.Rel (regionalExtension resolve slot) := by
  rw [regionalExtension_eq]
  refine G.under (G.bind (G.moves_read _) fun n => ?_)
  refine G.bind (G.moves_leaf _ _) fun _ => G.bind (G.moves_read _) fun payload s => ?_
  -- The region is set before the resolver runs and given back after it.
  let inner : Scene := { s.scene with context := { s.scene.context with region := some (UInt8.ofNat n) } }
  have hset : G.Rel s.scene inner := G.of_same rfl rfl
  have hresolved : G.Rel inner (resolve slot payload inner).2 := h slot payload inner
  exact G.trans (G.trans hset hresolved) (G.of_same rfl rfl)

theorem moves_perform (op : Operation) (hop : ∀ n, op = .shown n → G.quiet n) :
    Moves G.Rel ((interpreter resolve).perform op) := by
  cases op with
  | shown n => exact G.moves_emit (hop n rfl)
  | causeCode =>
    exact G.bind (G.moves_read _) fun _ => G.bind (G.moves_of_same fun _ => ⟨rfl, rfl⟩) fun _ =>
      G.moves_leaf _ _
  | subCauseCode =>
    exact G.bind (G.moves_of_same fun _ => ⟨rfl, rfl⟩) fun _ => G.bind (G.moves_read _) fun _ =>
      G.moves_leaf _ _
  | regionalExtension slot => exact G.moves_regionalExtension h slot
  | undecoded name remark =>
    exact G.bind (G.moves_read _) fun _ => G.under (G.moves_emit (G.remark _ _))

theorem moves_field {field : Field} (hshown : ∀ n, .shown n ∈ field.operations → G.quiet n) :
    Moves G.Rel (field.decode resolve) := by
  rw [← field_eq_decode]
  refine (G.relation resolve).field field fun op hop => G.moves_perform h op ?_
  rintro n rfl
  exact hshown n hop

theorem moves_schema {schema : Schema}
    (hshown : ∀ n, .shown n ∈ Components.operations schema → G.quiet n) :
    Moves G.Rel (Schema.decode resolve schema) := by
  rw [← schema_eq_decode]
  refine (G.relation resolve).schema schema fun op hop => G.moves_perform h op ?_
  rintro n rfl
  exact hshown n hop

end Growth

end V2x
