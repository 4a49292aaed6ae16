import V2x.Proofs.Dissector.Dispatch

/-!
# What overrides decide

Overrides stand over the table of messages and change nothing else. Whatever else they hold, a message is
dissected alike as long as the grammar in effect for its identifier is the same, provided that no parser
turns to another identifier (`dispatch_overrides`).
-/

namespace V2x

theorem Header.messageId_of_decode {data body : Octets} {header : Header}
    (h : Header.decode data = .ok (header, body)) : data[1]? = some header.messageId := by
  unfold Header.decode at h
  split at h
  · cases h
    rfl
  · cases h

/-- The first grammar of the name in an order of storage. -/
def findNamed (order : List Grammar) (name : String) : Option Grammar :=
  order.find? fun g => sameName g.name name

/-- A table by itself is searched by key. -/
theorem findNamed_values {κ : Type} [TableKey κ] (t : Table κ) (name : String) :
    findNamed t.grammars.values name = t.findByName? name :=
  rfl

section

variable {κ : Type} [TableKey κ] {t : Table κ} {order : List Grammar} {name : String}
  (horder : order.Perm t.grammars.values)
include horder

theorem exists_get?_of_mem {g : Grammar} (h : g ∈ order) : ∃ key, t.get? key = some g := by
  obtain ⟨⟨key, g'⟩, hentry, rfl⟩ := List.mem_map.mp (horder.mem_iff.mp h)
  exact ⟨key, (OrderedMap.get?_eq_some_iff _ _ _).mpr hentry⟩

theorem findNamed_eq_none (h : ∀ key g, t.get? key = some g → sameName g.name name = false) :
    findNamed order name = none := by
  refine List.find?_eq_none.mpr fun g hg => ?_
  obtain ⟨key, hkey⟩ := exists_get?_of_mem horder hg
  rw [h key g hkey]
  exact Bool.false_ne_true

theorem findNamed_of_named {key : κ} {g : Grammar} (hg : t.get? key = some g)
    (hname : sameName g.name name = true) :
    ∃ first found, findNamed order name = some found ∧ t.get? first = some found ∧
      sameName found.name name = true := by
  have hmem : g ∈ t.grammars.values :=
    List.mem_map.mpr ⟨(key, g), (OrderedMap.get?_eq_some_iff _ _ _).mp hg, rfl⟩
  cases hfound : findNamed order name with
  | none => exact absurd hname (List.find?_eq_none.mp hfound g (horder.mem_iff.mpr hmem))
  | some found =>
    obtain ⟨first, hfirst⟩ := exists_get?_of_mem horder (List.mem_of_find?_eq_some hfound)
    exact ⟨first, found, rfl, hfirst,
      List.find?_some (p := fun g : Grammar => sameName g.name name) hfound⟩

end

namespace Dissector

variable {d : Dissector}

theorem overrides_buildAll (steps : List BuildStep) (d : Dissector) :
    (buildAll steps d).2.overrides = d.overrides := by
  induction steps generalizing d with
  | nil => rfl
  | cons step more ih =>
    refine (ih (d.build step).2).trans ?_
    cases step with
    | register registration => exact (kept_registerAll [registration] d).2
    | standard => exact (kept_registerAll (Registration.standard d.config) d).2

/-! ## The list of overrides -/

theorem ascending_overrideList (d : Dissector) :
    d.overrideList.Pairwise fun a b => a.messageId < b.messageId :=
  List.pairwise_map.mpr (d.overrides.ascending.imp UInt8.lt_iff_toNat_lt.mpr)

theorem mem_overrideList (d : Dissector) (line : Override) :
    line ∈ d.overrideList ↔ ∃ g, d.overrides.get? line.messageId = some g ∧
      line.default = (d.messages.get? line.messageId).map Grammar.name ∧ line.current = g.name := by
  obtain ⟨id, default, current⟩ := line
  unfold overrideList
  rw [List.mem_map]
  constructor
  · rintro ⟨⟨id', g⟩, hmem, heq⟩
    cases heq
    exact ⟨g, (OrderedMap.get?_eq_some_iff _ _ _).mpr hmem, rfl, rfl⟩
  · rintro ⟨g, hget, hdefault, hcurrent⟩
    dsimp only at hget hdefault hcurrent
    refine ⟨(id, g), (OrderedMap.get?_eq_some_iff _ _ _).mp hget, ?_⟩
    rw [hdefault, hcurrent]

/-! ## Dissecting under other overrides -/

section

variable (overrides : OrderedMap UInt8 Grammar) {left right : Invoke}

theorem delegate_congr {g : Grammar} (h : left g.parser = right g.parser) (span : Octets) :
    delegate left g span = delegate right g span := by
  unfold delegate
  rw [h]

theorem resolve_overrides
    (h : ∀ {key g}, d.extensions.get? key = some g → left g.parser = right g.parser) :
    resolve { d with overrides } left = resolve d right := by
  funext slot payload s
  unfold resolve
  dsimp only
  split
  · rfl
  · split
    · next g hg => rw [delegate_congr (h hg)]
    · rfl

theorem run_overrides (hd : d.Binds Parser.plain) (n : Nat) {p : Parser} (hp : p.plain) :
    run { d with overrides } n p = run d n p := by
  induction n generalizing p with
  | zero => rfl
  | succ n ih =>
    have hresolve : resolve { d with overrides } (run { d with overrides } n) = resolve d (run d n) :=
      resolve_overrides overrides fun hg => ih (hd.extensions hg)
    funext data
    rw [run_succ, run_succ]
    refine congrArg (Run.recorded p data) ?_
    cases p with
    | message => exact hp.elim
    | script steps => exact hp.elim
    | schema schema =>
      unfold runWith parseSchema
      rw [hresolve]
    | undecoded => rfl
    | marker name => rfl
    | failing fault => rfl

theorem invoke_overrides (hd : d.Binds Parser.plain) {p : Parser} (hp : p.plain) :
    ({ d with overrides } : Dissector).invoke p = d.invoke p := by
  funext data
  unfold invoke
  rw [run_overrides overrides hd _ hp]

theorem dispatchMessage_overrides (hd : d.Binds Parser.plain) {id : UInt8}
    (heffective : ({ d with overrides } : Dissector).effective? id = d.effective? id)
    (body : Octets) :
    dispatchMessage { d with overrides } ({ d with overrides } : Dissector).invoke id body =
      dispatchMessage d d.invoke id body := by
  funext s
  unfold dispatchMessage
  rw [heffective]
  split
  · next g hg => rw [delegate_congr (invoke_overrides overrides hd (hd.effective hg))]
  · rfl

theorem parseMessage_overrides (hd : d.Binds Parser.plain) {data : Octets}
    (heffective : ∀ id, data[1]? = some id →
      ({ d with overrides } : Dissector).effective? id = d.effective? id) :
    parseMessage { d with overrides } ({ d with overrides } : Dissector).invoke data =
      parseMessage d d.invoke data := by
  unfold parseMessage
  split
  · rfl
  · next header body hdecode =>
    have hid := heffective _ (Header.messageId_of_decode hdecode)
    rw [dispatchMessage_overrides overrides hd hid]

/-- The version may go to any parser but a script, which could turn to any identifier. -/
theorem invoke_version_overrides (hd : d.Binds Parser.plain)
    (hd' : ({ d with overrides } : Dissector).Binds Parser.plain) {p : Parser} (hp : p.scriptFree)
    {data : Octets}
    (heffective : ∀ id, data[1]? = some id →
      ({ d with overrides } : Dissector).effective? id = d.effective? id) :
    ({ d with overrides } : Dissector).invoke p data = d.invoke p data := by
  cases p with
  | message =>
    have hfree : ∀ p : Parser, p.plain → p.scriptFree := fun _ => Parser.plain.scriptFree
    rw [invoke_eq (hd'.imp hfree) hp, invoke_eq (hd.imp hfree) hp]
    exact congrArg _ (parseMessage_overrides overrides hd heffective)
  | script steps => exact hp.elim
  | schema schema => rw [invoke_overrides overrides hd (p := .schema schema) trivial]
  | undecoded => rw [invoke_overrides overrides hd (p := .undecoded) trivial]
  | marker name => rw [invoke_overrides overrides hd (p := .marker name) trivial]
  | failing fault => rw [invoke_overrides overrides hd (p := .failing fault) trivial]

theorem dispatchVersion_overrides (hd : d.Binds Parser.plain)
    (hd' : ({ d with overrides } : Dissector).Binds Parser.plain)
    (hversions : ∀ {version g}, d.versions.get? version = some g → g.parser.scriptFree)
    {data : Octets}
    (heffective : ∀ id, data[1]? = some id →
      ({ d with overrides } : Dissector).effective? id = d.effective? id) (version : UInt8) :
    dispatchVersion { d with overrides } ({ d with overrides } : Dissector).invoke version data =
      dispatchVersion d d.invoke version data := by
  show dispatchVersion d ({ d with overrides } : Dissector).invoke version data = _
  refine dispatchVersion_congr fun hg => ?_
  exact invoke_version_overrides overrides hd hd' (hversions hg) heffective

/-- Messages of one identifier are dissected alike under all overrides that leave it the same grammar. -/
theorem dispatch_overrides (hd : d.Binds Parser.plain)
    (hd' : ({ d with overrides } : Dissector).Binds Parser.plain)
    (hversions : ∀ {version g}, d.versions.get? version = some g → g.parser.scriptFree)
    {pdu : Octets} {id : UInt8} (hid : pdu[1]? = some id)
    (heffective : ({ d with overrides } : Dissector).effective? id = d.effective? id) :
    ({ d with overrides } : Dissector).dispatch pdu = d.dispatch pdu := by
  unfold dispatch
  cases hdata : pdu.take d.config.maxSize with
  | nil => rfl
  | cons version rest =>
    have heffective' : ∀ id', (version :: rest)[1]? = some id' →
        ({ d with overrides } : Dissector).effective? id' = d.effective? id' := by
      intro id' hid'
      rw [← hdata, List.getElem?_take] at hid'
      split at hid'
      · cases hid.symm.trans hid'
        exact heffective
      · cases hid'
    simp only [dispatchVersion_overrides overrides hd hd' hversions heffective']

end

end Dissector

end V2x
