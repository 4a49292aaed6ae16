import V2x.Proofs.Decode.Interpreter
import V2x.Proofs.Per.Built

/-!
# Relations between two interpreters

Two interpreters do corresponding things in the same order. A relation that sequences keep, and that holds
between the operations a schema uses, therefore holds between the two readings of the schema
(`Relation.schema`). A property of one interpreter is a relation that ignores the other.
-/

namespace V2x

/-- What a schema may ask for besides reading values and showing them by name. -/
inductive Operation
  | shown (n : Node)
  | causeCode
  | subCauseCode
  | regionalExtension (slot : Slot)
  | undecoded (name remark : String)

mutual

def Field.operations : Field → List Operation
  | .causeCode => [.causeCode]
  | .subCauseCode => [.subCauseCode]
  | .sequence _ _ c => c.operations
  | .sequenceOf _ _ _ element => element.operations
  | .choice _ _ _ a => a.operations
  | .regionalExtension slot => [.regionalExtension slot]
  | .regionalList slot => [.regionalExtension slot]
  | .undecoded name remark => [.undecoded name remark]
  | .integer _ _ _ | .extensibleInteger _ _ _ | .enumerated _ _ _ | .octets _ _ | .unsupported _ => []

def Components.operations : Components → List Operation
  | .done => []
  | .required f more => f.operations ++ more.operations
  | .optional f more => f.operations ++ more.operations
  | .defaulted f absent more => f.operations ++ .shown absent :: more.operations

def Alternatives.operations : Alternatives → List Operation
  | .done => []
  | .or f more => f.operations ++ more.operations

end

namespace Interpreter

def perform {M : Type → Type} [Monad M] (I : Interpreter M) : Operation → M Unit
  | .shown n => I.emit n
  | .causeCode => I.causeCode
  | .subCauseCode => I.subCauseCode
  | .regionalExtension slot => I.regionalExtension slot
  | .undecoded name remark => I.undecoded name remark

/-- A relation kept by reads, by fields with a value, and by sequences. -/
structure Relation {M N : Type → Type} [Monad M] [Monad N] (left : Interpreter M)
    (right : Interpreter N) where
  Rel : {α : Type} → M α → N α → Prop
  pure {α : Type} (a : α) : Rel (Pure.pure a) (Pure.pure a)
  bind {α β : Type} {m : M α} {n : N α} {f : α → M β} {g : α → N β} :
    Rel m n → (∀ a, Rel (f a) (g a)) → Rel (m >>= f) (n >>= g)
  read {α : Type} {r : Per.Read α} : r.Built → Rel (left.read r) (right.read r)
  leaf (name : String) (value : Value) :
    Rel (left.emit (Node.leaf name value)) (right.emit (Node.leaf name value))
  under (name : String) {m : M Unit} {n : N Unit} :
    Rel m n → Rel (left.under name m) (right.under name n)

namespace Relation

variable {M N : Type → Type} [Monad M] [Monad N] {left : Interpreter M} {right : Interpreter N}
  (S : Relation left right)

def Keeps (operations : List Operation) : Prop :=
  ∀ op ∈ operations, S.Rel (left.perform op) (right.perform op)

theorem Keeps.first {a b : List Operation} (h : S.Keeps (a ++ b)) : S.Keeps a :=
  fun op hop => h op (List.mem_append_left b hop)

theorem Keeps.more {a b : List Operation} (h : S.Keeps (a ++ b)) : S.Keeps b :=
  fun op hop => h op (List.mem_append_right a hop)

theorem Keeps.head {op : Operation} {more : List Operation} (h : S.Keeps (op :: more)) :
    S.Rel (left.perform op) (right.perform op) :=
  h op List.mem_cons_self

theorem Keeps.tail {op : Operation} {more : List Operation} (h : S.Keeps (op :: more)) :
    S.Keeps more :=
  fun op hop => h op (List.mem_cons_of_mem _ hop)

theorem times {m : M Unit} {n : N Unit} (h : S.Rel m n) (count : Nat) :
    S.Rel (times m count) (times n count) := by
  induction count with
  | zero => exact S.pure ()
  | succ count ih => exact S.bind h fun _ => ih

theorem emitAll : ∀ data : List Octets,
    S.Rel (left.emitAll Node.raw data) (right.emitAll Node.raw data)
  | [] => S.pure ()
  | _ :: more => S.bind (S.leaf _ _) fun _ => emitAll more

theorem additions (extended : Bool) : S.Rel (left.additions extended) (right.additions extended) := by
  cases extended with
  | false => exact S.pure ()
  | true => exact S.bind (S.read .additions) S.emitAll

theorem whether {m m' : M Unit} {n n' : N Unit} (h : S.Rel m n) (h' : S.Rel m' n')
    (present : List Bool) : S.Rel (whether present m m') (whether present n n') := by
  unfold Interpreter.whether
  split
  · exact h
  · exact h'

mutual

theorem field : ∀ f : Field, S.Keeps f.operations → S.Rel (left.field f) (right.field f)
  | .integer _ lower upper, _ => S.bind (S.read (.constrained lower upper)) fun _ => S.leaf _ _
  | .extensibleInteger name lower upper, _ =>
    S.bind (S.read (.extensibleInteger name lower upper)) fun _ => S.leaf _ _
  | .enumerated _ labels extensible, _ =>
    S.bind (S.bind (S.read (.index labels.length extensible)) fun n =>
      S.bind (S.leaf _ _) fun _ => S.pure n) fun _ => S.pure ()
  | .octets _ count, _ => S.bind (S.read (.octets count)) fun _ => S.leaf _ _
  | .causeCode, h => h.head
  | .subCauseCode, h => h.head
  | .sequence name extensible c, h =>
    S.under name (S.bind (S.read (.extensionBit extensible)) fun extended =>
      S.bind (S.read (.bits c.optionalCount)) fun present =>
      S.bind (components c h present) fun _ => S.additions extended)
  | .sequenceOf name lower upper element, h =>
    S.under name (S.bind (S.read (.size lower upper)) (S.times (field element h)))
  | .choice name type extensible a, h =>
    S.under name (S.bind (S.read (.index a.count extensible)) fun index =>
      alternatives type extensible index a h index)
  | .regionalExtension _, h => h.head
  | .regionalList _, h =>
    S.bind (S.read (.size 1 4)) fun count => S.under _ (S.times h.head count)
  | .unsupported _, _ => S.read (.throw _)
  | .undecoded _ _, h => h.head

theorem components : ∀ c : Components, S.Keeps c.operations → ∀ present : List Bool,
    S.Rel (left.components c present) (right.components c present)
  | .done, _, _ => S.pure ()
  | .required f more, h, present =>
    S.bind (field f h.first) fun _ => components more h.more present
  | .optional f more, h, present =>
    S.bind (S.whether (field f h.first) (S.pure ()) present) fun _ =>
      components more h.more present.tail
  | .defaulted f _ more, h, present =>
    S.bind (S.whether (field f h.first) h.more.head present) fun _ =>
      components more h.more.tail present.tail

theorem alternatives (type : String) (extensible : Bool) (index : Nat) :
    ∀ a : Alternatives, S.Keeps a.operations → ∀ skip : Nat,
      S.Rel (left.alternatives type extensible index a skip)
        (right.alternatives type extensible index a skip)
  | .done, _, _ => by
    unfold Interpreter.alternatives
    split
    · exact S.bind (S.read (.openType type)) fun _ => S.leaf _ _
    · exact S.read (.throw _)
  | .or f _, h, 0 => field f h.first
  | .or _ more, h, skip + 1 => alternatives type extensible index more h.more skip

end

theorem schema (s : Schema) (h : S.Keeps (Components.operations s)) :
    S.Rel (left.schema s) (right.schema s) :=
  S.bind (S.read (.bits _)) (S.components s h)

end Relation

end Interpreter

end V2x
