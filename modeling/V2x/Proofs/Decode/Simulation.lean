import V2x.Proofs.Decode.Relation

/-!
# Relations that only cause codes may break

Most relations between interpreters are kept by every operation but perhaps cause codes, which write to the
context. They hold between the two readings of every schema without cause codes, and of all schemas where
cause codes keep them too (`Simulation.schema`).
-/

namespace V2x

def Operation.isCauseCode : Operation → Bool
  | .causeCode => true
  | _ => false

/-- Whether no cause code is decoded anywhere. -/
def Components.causeFree (c : Components) : Bool :=
  c.operations.all fun op => !op.isCauseCode

namespace Interpreter

/-- A relation that all operations but cause codes keep. -/
structure Simulation {M N : Type → Type} [Monad M] [Monad N] (left : Interpreter M)
    (right : Interpreter N) where
  Rel : {α : Type} → M α → N α → Prop
  pure {α : Type} (a : α) : Rel (Pure.pure a) (Pure.pure a)
  bind {α β : Type} {m : M α} {n : N α} {f : α → M β} {g : α → N β} :
    Rel m n → (∀ a, Rel (f a) (g a)) → Rel (m >>= f) (n >>= g)
  read {α : Type} {r : Per.Read α} : r.Built → Rel (left.read r) (right.read r)
  rest : Rel (left.read .rest) (right.read .rest)
  emit (n : Node) : Rel (left.emit n) (right.emit n)
  under (name : String) {m : M Unit} {n : N Unit} :
    Rel m n → Rel (left.under name m) (right.under name n)
  subCauseCode : Rel left.subCauseCode right.subCauseCode
  regionalExtension (slot : Slot) : Rel (left.regionalExtension slot) (right.regionalExtension slot)

namespace Simulation

variable {M N : Type → Type} [Monad M] [Monad N] {left : Interpreter M} {right : Interpreter N}
  (S : Simulation left right)

def toRelation : Relation left right where
  Rel := S.Rel
  pure := S.pure
  bind := S.bind
  read := S.read
  leaf _ _ := S.emit _
  under := S.under

theorem perform (op : Operation) (h : op.isCauseCode = false ∨ S.Rel left.causeCode right.causeCode) :
    S.Rel (left.perform op) (right.perform op) := by
  cases op with
  | shown n => exact S.emit n
  | causeCode => exact h.resolve_left Bool.noConfusion
  | subCauseCode => exact S.subCauseCode
  | regionalExtension slot => exact S.regionalExtension slot
  | undecoded name remark => exact S.bind S.rest fun _ => S.under name (S.emit _)

theorem field (f : Field) (h : S.Rel left.causeCode right.causeCode) :
    S.Rel (left.field f) (right.field f) :=
  S.toRelation.field f fun op _ => S.perform op (.inr h)

theorem schema (s : Schema)
    (h : Components.causeFree s = true ∨ S.Rel left.causeCode right.causeCode) :
    S.Rel (left.schema s) (right.schema s) := by
  refine S.toRelation.schema s fun op hop => S.perform op (h.imp_left fun hfree => ?_)
  simpa using List.all_eq_true.mp hfree op hop

end Simulation

end Interpreter

end V2x
