import Mathlib.Data.List.Nodup
import V2x.Proofs.Decode.Frame
import V2x.Proofs.Per.Local
import V2x.Schema.Frames

/-!
# Causes and the sub-causes behind them

A cause is recorded as soon as its code has been read, and its sub-cause is read next, so that the
vocabulary of the sub-cause is that of its own cause (`cause_run`). Known causes have vocabularies of their
own, by whose names they are told apart (`Cause.field_vocabularyFor_iff`).
-/

namespace V2x

namespace Node

def ofCause (code : UInt8) : Node :=
  leaf "causeCode" (.enumerated code.toNat (Cause.label? code))

def ofSubCause (vocabulary : Vocabulary) (code : UInt8) : Node :=
  leaf vocabulary.field (.enumerated code.toNat (vocabulary.label? code))

end Node

namespace Cause

/-! ## Vocabularies told apart -/

theorem nodup_codes : (all.map code).Nodup := by
  decide

theorem nodup_fields : (Vocabulary.generic.field :: all.map fun cause => cause.vocabulary.field).Nodup := by
  decide

theorem mem_of_ofCode? {code : UInt8} {cause : Cause} (h : ofCode? code = some cause) :
    cause ∈ all ∧ cause.code = code := by
  have hcode := List.find?_some (p := fun c : Cause => c.code = code) h
  exact ⟨List.mem_of_find?_eq_some h, of_decide_eq_true hcode⟩

variable {cause cause' : Cause} (h : cause ∈ all)
include h

theorem ofCode?_code : ofCode? cause.code = some cause := by
  cases hfound : ofCode? cause.code with
  | none => exact absurd (decide_eq_true rfl) (List.find?_eq_none.mp hfound cause h)
  | some found =>
    obtain ⟨hmem, hcode⟩ := mem_of_ofCode? hfound
    rw [List.inj_on_of_nodup_map nodup_codes hmem h hcode]

theorem vocabularyFor_code : vocabularyFor cause.code = cause.vocabulary := by
  rw [vocabularyFor, ofCode?_code h]
  rfl

theorem eq_of_field (h' : cause' ∈ all) (hfield : cause.vocabulary.field = cause'.vocabulary.field) :
    cause = cause' :=
  List.inj_on_of_nodup_map (List.nodup_cons.mp nodup_fields).2 h h' hfield

/-- A sub-cause is named after a cause just under its code. -/
theorem field_vocabularyFor_iff (code : UInt8) :
    (vocabularyFor code).field = cause.vocabulary.field ↔ code = cause.code := by
  constructor
  · intro hfield
    unfold vocabularyFor at hfield
    cases hfound : ofCode? code with
    | none =>
      rw [hfound] at hfield
      exact absurd (hfield ▸ List.mem_map_of_mem h) (List.nodup_cons.mp nodup_fields).1
    | some found =>
      rw [hfound] at hfield
      obtain ⟨hmem, rfl⟩ := mem_of_ofCode? hfound
      rw [eq_of_field hmem h hfield]
  · rintro rfl
    rw [vocabularyFor_code h]

end Cause

theorem Scene.change_nil (s : Scene) (context : Context) :
    s.change ⟨context, [], []⟩ = { s with context } := by
  simp [change]

/-- The vocabulary that a cause selects, if there is one. -/
def Vocabulary.of (cause : Option UInt8) : Vocabulary :=
  (cause.map Cause.vocabularyFor).getD .generic

theorem Context.vocabulary_eq (c : Context) : c.vocabulary = .of c.cause := by
  unfold Context.vocabulary Vocabulary.of
  cases c.cause <;> rfl

/-- A sub-cause is named after a cause just if this one selects its vocabulary. -/
theorem Vocabulary.field_of_iff {cause : Cause} (h : cause ∈ Cause.all) (active : Option UInt8) :
    (Vocabulary.of active).field = cause.vocabulary.field ↔ active = some cause.code := by
  cases active with
  | none =>
    refine iff_of_false (fun hfield => ?_) nofun
    exact (List.nodup_cons.mp Cause.nodup_fields).1 (List.mem_map.mpr ⟨cause, h, hfield.symm⟩)
  | some code => exact (Cause.field_vocabularyFor_iff h code).trans (Option.some_inj).symm

/-- What is shown of a cause whose reading came to `result`: its code, the sub-cause named by this code and
additions, as far as they were read. -/
inductive Cause.Shown {α : Type} (code : Option UInt8) : (result : Except Fault α) → List Node → Prop
  | nothing (fault : Fault) : Shown code (.error fault) []
  | code {cause : UInt8} (fault : Fault) (h : code = some cause) :
    Shown code (.error fault) [Node.ofCause cause]
  | whole {cause : UInt8} (subCause : UInt8) (additions : List Octets) (result : Except Fault α)
    (h : code = some cause) :
    Shown code result (Node.ofCause cause :: Node.ofSubCause (Cause.vocabularyFor cause) subCause ::
      additions.map Node.raw)

theorem Cause.Shown.leaves {α : Type} {code : Option UInt8} {result : Except Fault α}
    {nodes : List Node} (h : Cause.Shown code result nodes) : ∀ n ∈ nodes, n.children = [] := by
  cases h <;> simp [Node.ofCause, Node.ofSubCause, Node.raw, Node.leaf]

theorem Cause.Shown.more {α β : Type} {code : Option UInt8} {a : α} {nodes : List Node}
    (h : Cause.Shown code (Except.ok a : Except Fault α) nodes) (data : List Octets)
    (result : Except Fault β) : Cause.Shown code result (nodes ++ data.map Node.raw) := by
  cases h with
  | whole subCause additions _ hcode =>
    have hwhole := Cause.Shown.whole subCause (additions ++ data) result hcode
    rwa [List.map_append] at hwhole

namespace Per

/-- The octet with the code of a cause, behind its extension bit. -/
def Read.causeCode : Read UInt8 := do
  let _ ← extensionBit true
  return UInt8.ofNat (← number 8)

def Reader.causeCode? (r : Reader) : Option UInt8 :=
  (Read.causeCode r).outcome.toOption

theorem Reader.causeCode?_of_error {r r₁ : Reader} {fault : Fault}
    (h : Read.extensionBit true r = .error fault r₁) : r.causeCode? = none := by
  unfold causeCode? Read.causeCode
  rw [EStateM.bind_of_error h]
  rfl

theorem Reader.causeCode?_of_ok {r r₁ : Reader} {extended : Bool}
    (h : Read.extensionBit true r = .ok extended r₁) :
    r.causeCode? = (Read.number 8 r₁).outcome.toOption.map UInt8.ofNat := by
  unfold causeCode? Read.causeCode
  rw [EStateM.bind_of_ok h, EStateM.bind_eq]
  cases Read.number 8 r₁ <;> rfl

end Per

namespace Dissect

theorem causeCode_run (r : Per.Reader) (s : Scene) :
    causeCode ⟨r, s⟩ =
      match Per.Read.number 8 r with
      | .error fault r₁ => .error fault ⟨r₁, s⟩
      | .ok n r₁ =>
        .ok () ⟨r₁, s.change
          ⟨{ s.context with cause := some (UInt8.ofNat n) }, [Node.ofCause (UInt8.ofNat n)], []⟩⟩ := by
  unfold causeCode
  rw [EStateM.bind_eq, read_eq]
  cases Per.Read.number 8 r with
  | error fault r₁ => rfl
  | ok n r₁ =>
    dsimp only [EStateM.Result.outcome_ok, EStateM.Result.state_ok, EStateM.Result.of_ok]
    rw [EStateM.bind_eq]
    simp [modifyContext, emit, Scene.emit, Scene.change, Node.ofCause, Node.push_eq_pushAll]

theorem subCauseCode_run (r : Per.Reader) (s : Scene) :
    subCauseCode ⟨r, s⟩ =
      match Per.Read.number 8 r with
      | .error fault r₁ => .error fault ⟨r₁, s⟩
      | .ok n r₁ =>
        .ok () ⟨r₁, s.change
          ⟨s.context, [Node.ofSubCause (.of s.context.cause) (UInt8.ofNat n)], []⟩⟩ := by
  unfold subCauseCode
  rw [EStateM.bind_of_ok (show context ⟨r, s⟩ = .ok s.context ⟨r, s⟩ from rfl), EStateM.bind_eq,
    read_eq]
  cases Per.Read.number 8 r with
  | error fault r₁ => rfl
  | ok n r₁ =>
    rw [← Context.vocabulary_eq]
    dsimp only
    rw [← Scene.emit_eq_change]
    rfl

theorem emitRaw_run (data : List Octets) (r : Per.Reader) (s : Scene) :
    (data.forM fun d => emit (Node.raw d)) ⟨r, s⟩ =
      .ok () ⟨r, s.change ⟨s.context, data.map Node.raw, []⟩⟩ := by
  induction data generalizing s with
  | nil =>
    rw [List.map_nil, Scene.change_context]
    rfl
  | cons d more ih =>
    have hfirst : emit (Node.raw d) ⟨r, s⟩ = .ok () ⟨r, s.change ⟨s.context, [Node.raw d], []⟩⟩ := by
      rw [← Scene.emit_eq_change]
      rfl
    refine (EStateM.bind_of_ok hfirst _).trans ?_
    rw [ih, Scene.change_change]
    rfl

theorem additions_run (extended : Bool) (r : Per.Reader) (s : Scene) :
    ∃ (o : Except Fault Unit) (k : Nat) (data : List Octets), additions extended ⟨r, s⟩ =
      .of o ⟨r.advance k, s.change ⟨s.context, data.map Node.raw, []⟩⟩ := by
  cases extended with
  | false => exact ⟨.ok (), 0, [], by rw [List.map_nil, Scene.change_context]; rfl⟩
  | true =>
    obtain ⟨k, -, hstate, -⟩ := Per.Read.Built.additions.local r
    have hread := read_eq Per.Read.additions ⟨r, s⟩
    dsimp only at hread
    rw [hstate] at hread
    cases ho : (Per.Read.additions r).outcome with
    | error fault =>
      rw [ho] at hread
      refine ⟨.error fault, k, [], ?_⟩
      rw [List.map_nil, Scene.change_context]
      exact EStateM.bind_of_error hread _
    | ok data =>
      rw [ho] at hread
      exact ⟨.ok (), k, data, (EStateM.bind_of_ok hread _).trans (emitRaw_run data _ s)⟩

theorem codes_run (resolve : Resolver) (present : List Bool) (r : Per.Reader) (s : Scene) :
    let code := (Per.Read.number 8 r).outcome.toOption.map UInt8.ofNat
    ∃ (o : Except Fault Unit) (k : Nat) (children : List Node),
      Components.decode resolve (.required .causeCode <| .required .subCauseCode .done) present ⟨r, s⟩ =
        .of o ⟨r.advance k, s.change
          ⟨{ s.context with cause := code.or s.context.cause }, children, []⟩⟩ ∧
      Cause.Shown code o children := by
  intro code
  have hfirst := causeCode_run r s
  obtain ⟨k, -, hr₁, -⟩ := (Per.Read.Built.number 8).local r
  cases hn : Per.Read.number 8 r with
  | error fault r₁ =>
    have hcode : code = none := by simp [code, hn, Except.toOption]
    rw [hn] at hfirst hr₁
    obtain rfl : r₁ = r.advance k := hr₁
    rw [hcode]
    refine ⟨.error fault, k, [], ?_, .nothing fault⟩
    rw [Option.none_or, Scene.change_context]
    exact EStateM.bind_of_error hfirst _
  | ok n r₁ =>
    have hcode : code = some (UInt8.ofNat n) := by simp [code, hn, Except.toOption]
    rw [hn] at hfirst hr₁
    obtain rfl : r₁ = r.advance k := hr₁
    rw [hcode]
    have hsecond := subCauseCode_run (r.advance k) (s.change
      ⟨{ s.context with cause := some (UInt8.ofNat n) }, [Node.ofCause (UInt8.ofNat n)], []⟩)
    obtain ⟨k', -, hr₂, -⟩ := (Per.Read.Built.number 8).local (r.advance k)
    cases hsub : Per.Read.number 8 (r.advance k) with
    | error fault r₂ =>
      -- By now the cause is recorded.
      rw [hsub] at hsecond hr₂
      obtain rfl : r₂ = (r.advance k).advance k' := hr₂
      rw [Per.Reader.advance_advance] at hsecond
      refine ⟨.error fault, k + k', _, ?_, .code fault rfl⟩
      refine (EStateM.bind_of_ok hfirst _).trans ?_
      exact EStateM.bind_of_error hsecond _
    | ok sub r₂ =>
      rw [hsub] at hsecond hr₂
      obtain rfl : r₂ = (r.advance k).advance k' := hr₂
      rw [Per.Reader.advance_advance] at hsecond
      refine ⟨.ok (), k + k', _, ?_, .whole (UInt8.ofNat sub) [] _ rfl⟩
      refine (EStateM.bind_of_ok hfirst _).trans ((EStateM.bind_of_ok hsecond _).trans ?_)
      rw [Scene.change_change]
      rfl

/-- A cause is one node, and recorded once the octet of its code has been read. -/
theorem cause_run (resolve : Resolver) (name : String) (r : Per.Reader) (s : Scene) :
    ∃ (o : Except Fault Unit) (k : Nat) (children : List Node),
      (Schema.cause name).decode resolve ⟨r, s⟩ =
        .of o ⟨r.advance k, s.change
          ⟨{ s.context with cause := r.causeCode?.or s.context.cause }, [{ name, children }], []⟩⟩ ∧
      Cause.Shown r.causeCode? o children := by
  suffices hbody : ∀ t : Scene, ∃ (o : Except Fault Unit) (k : Nat) (children : List Node),
      (do
        let extended ← read (.extensionBit true)
        let present ← read (.bits 0)
        Components.decode resolve (.required .causeCode <| .required .subCauseCode .done) present
        additions extended) ⟨r, t⟩ =
        .of o ⟨r.advance k, t.change
          ⟨{ t.context with cause := r.causeCode?.or t.context.cause }, children, []⟩⟩ ∧
      Cause.Shown r.causeCode? o children by
    obtain ⟨o, k, children, hrun, hshown⟩ := hbody (s.descend name)
    refine ⟨o, k, children, ?_, hshown⟩
    unfold Schema.cause Field.decode
    exact under_of hrun
  intro t
  have hflag := read_eq (.extensionBit true) ⟨r, t⟩
  obtain ⟨k, -, hr₁, -⟩ := (Per.Read.Built.extensionBit true).local r
  dsimp only at hflag
  cases hbit : Per.Read.extensionBit true r with
  | error fault r₁ =>
    rw [hbit] at hflag hr₁
    obtain rfl : r₁ = r.advance k := hr₁
    rw [Per.Reader.causeCode?_of_error hbit, Option.none_or]
    refine ⟨.error fault, k, [], ?_, .nothing fault⟩
    rw [Scene.change_context]
    exact EStateM.bind_of_error hflag _
  | ok extended r₁ =>
    rw [hbit] at hflag hr₁
    obtain rfl : r₁ = r.advance k := hr₁
    rw [Per.Reader.causeCode?_of_ok hbit]
    have hbits := read_bits_of_le (Nat.zero_le (r.advance k).remaining) t
    obtain ⟨o, k', children, hcodes, hshown⟩ := codes_run resolve [] (r.advance k) t
    rw [Per.Reader.advance_advance] at hcodes
    cases o with
    | error fault =>
      refine ⟨.error fault, k + k', children, ?_, hshown⟩
      refine (EStateM.bind_of_ok hflag _).trans ((EStateM.bind_of_ok hbits _).trans ?_)
      exact EStateM.bind_of_error hcodes _
    | ok _ =>
      obtain ⟨o, m, data, hadditions⟩ := additions_run extended (r.advance (k + k')) (t.change _)
      refine ⟨o, k + k' + m, children ++ data.map Node.raw, ?_, hshown.more data o⟩
      refine (EStateM.bind_of_ok hflag _).trans ((EStateM.bind_of_ok hbits _).trans ?_)
      refine (EStateM.bind_of_ok hcodes _).trans (hadditions.trans ?_)
      rw [Scene.change_change, Per.Reader.advance_advance]
      rfl

end Dissect

end V2x
