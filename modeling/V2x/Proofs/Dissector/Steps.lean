import V2x.Dissector.Run
import V2x.Proofs.Per.Taken

/-!
# What holds of every step

A step is put together from a few actions. A relation between decoders that sequences keep holds between the
steps of two dissectors, and so between all scripts, if it holds between those actions (`Actions.runSteps`). A
property of one decoder is a relation that ignores the other.
-/

namespace V2x

def Step.isResolve : Step → Bool
  | .resolve _ _ => true
  | _ => false

namespace Dissector

/-- A relation that sequences keep, and that holds between the actions which steps are made of. Resolving a
payload stands apart. -/
structure Actions (d d' : Dissector) (left right : Invoke) where
  Rel : {α : Type} → Dissect α → Dissect α → Prop
  pure {α : Type} (a : α) : Rel (Pure.pure a) (Pure.pure a)
  bind {α β : Type} {m n : Dissect α} {f g : α → Dissect β} :
    Rel m n → (∀ a, Rel (f a) (g a)) → Rel (m >>= f) (n >>= g)
  read {α : Type} {r : Per.Read α} : r.Forward → Rel (Dissect.read r) (Dissect.read r)
  leaf (name : String) (value : Value) :
    Rel (Dissect.emit (Node.leaf name value)) (Dissect.emit (Node.leaf name value))
  context : Rel Dissect.context Dissect.context
  modifyContext (f : Context → Context) : Rel (Dissect.modifyContext f) (Dissect.modifyContext f)
  decode (field : Field) :
    Rel (field.decode (Dissector.resolve d left)) (field.decode (Dissector.resolve d' right))
  dispatchMessage (id : UInt8) (body : Octets) :
    Rel (Dissect.surely (Dissector.dispatchMessage d left id body))
      (Dissect.surely (Dissector.dispatchMessage d' right id body))
  parseMessage (data : Octets) :
    Rel (Dissect.run (Dissector.parseMessage d left data))
      (Dissect.run (Dissector.parseMessage d' right data))
  parseSchema (schema : Schema) (data : Octets) :
    Rel (Dissect.run (Dissector.parseSchema d left schema data))
      (Dissect.run (Dissector.parseSchema d' right schema data))

namespace Actions

variable {d d' : Dissector} {left right : Invoke} (S : Actions d d' left right)

/-- Resolving the payload of an extension, outside any extension that is decoded. -/
def Resolves : Prop :=
  ∀ (slot : Slot) (payload : Octets),
    S.Rel (Dissect.surely (Dissector.resolve d left slot payload))
      (Dissect.surely (Dissector.resolve d' right slot payload))

/-- An action, followed by what it answers. -/
theorem answer {α : Type} {m n : Dissect α} (h : S.Rel m n) (f : α → Answer) :
    S.Rel (do return f (← m)) (do return f (← n)) :=
  S.bind h fun a => S.pure (f a)

theorem setRegion (region : Option Region) :
    S.Rel (Dissect.setRegion region) (Dissect.setRegion region) :=
  S.bind S.context fun _ => S.bind (S.modifyContext _) fun _ => S.pure _

theorem enumerated (name : String) (labels : List String) (extensible : Bool) :
    S.Rel (Dissect.enumerated name labels extensible) (Dissect.enumerated name labels extensible) :=
  S.bind (S.read (Per.Read.Built.index labels.length extensible).forward) fun n =>
    S.bind (S.leaf _ _) fun _ => S.pure n

theorem dataFor (data : Option Octets) :
    S.Rel (Dissector.dataFor data) (Dissector.dataFor data) := by
  cases data with
  | none => exact S.read Per.Read.forward_rest
  | some data => exact S.pure data

theorem runStep (step : Step) (h : step.isResolve = false ∨ S.Resolves) :
    S.Rel (Dissector.runStep d left step) (Dissector.runStep d' right step) := by
  cases step with
  | read step => exact S.answer (S.read (Per.Read.forward_step step)) _
  | setHeader header => exact S.answer (S.modifyContext _) _
  | beginMessage grammar => exact S.answer (S.modifyContext _) _
  | setCause code => exact S.answer (S.modifyContext _) _
  | setRegion region => exact S.answer (S.setRegion region) _
  | vocabulary => exact S.answer S.context _
  | showContext => exact S.bind S.context fun _ => S.answer (S.leaf _ _) _
  | decode field => exact S.answer (S.decode field) _
  | enumerated name labels extensible => exact S.answer (S.enumerated name labels extensible) _
  | resolve slot payload => exact S.answer (h.resolve_left Bool.noConfusion slot payload) _
  | dispatch id body =>
    exact S.bind (S.dataFor body) fun body => S.answer (S.dispatchMessage id body) _
  | parseMessage data =>
    exact S.bind (S.dataFor data) fun data => S.answer (S.parseMessage data) _
  | parse schema data =>
    exact S.bind (S.dataFor data) fun data => S.answer (S.parseSchema schema data) _

theorem runSteps (steps : List Step)
    (h : (∀ step ∈ steps, step.isResolve = false) ∨ S.Resolves) :
    S.Rel (Dissector.runSteps d left steps) (Dissector.runSteps d' right steps) := by
  induction steps with
  | nil => exact S.pure ()
  | cons step more ih =>
    have hstep := h.imp_left fun hfree => hfree step List.mem_cons_self
    have hmore := h.imp_left fun hfree step hin => hfree step (List.mem_cons_of_mem _ hin)
    exact S.bind (S.runStep step hstep) fun _ => ih hmore

end Actions

end Dissector

end V2x
