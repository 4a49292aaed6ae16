import V2x.Proofs.Dissector.Overrides
import V2x.Proofs.History
import V2x.Session

/-!
# Overrides in the course of a session

Requests to a session may come in any order, and a search by name meets the grammars of a table in whatever order
they are stored. What requests leave of the overrides is what was written last for each identifier, over the
table of messages (`Session.Overlay`).
-/

namespace V2x

/-- The orders in which the grammars of the tables are stored, as far as a search by name shows them. -/
structure StorageOrder where
  versions : List Grammar
  messages : List Grammar

namespace StorageOrder

/-- Just the grammars of the tables are stored. -/
structure Of (o : StorageOrder) (d : Dissector) : Prop where
  versions : o.versions.Perm d.versions.grammars.values
  messages : o.messages.Perm d.messages.grammars.values

/-- By ascending key. -/
def byKey (d : Dissector) : StorageOrder :=
  ⟨d.versions.grammars.values, d.messages.grammars.values⟩

theorem of_byKey (d : Dissector) : (byKey d).Of d :=
  ⟨.refl _, .refl _⟩

end StorageOrder

/-- What a request writes to the override of a message identifier, if anything: a grammar, or that there is
none any more. A name for which no grammar is found writes nothing. -/
def Request.writesFound (find : String → Option Grammar) (id : UInt8) :
    Request → Option (Option Grammar)
  | .override other grammar => if other = id then some (some grammar) else none
  | .overrideByName other name => if other = id then (find name).map some else none
  | .clearOverride other => if other = id then some none else none
  | .clearOverrides => some none
  | _ => none

/-- What it writes where the table is searched by key. -/
def Request.writes (messages : Table UInt8) : UInt8 → Request → Option (Option Grammar) :=
  writesFound messages.findByName?

/-- The identifier whose override a request is about, if it is about one only. -/
def Request.subject? : Request → Option UInt8
  | .override id _ => some id
  | .overrideByName id _ => some id
  | .clearOverride id => some id
  | _ => none

namespace Session

open Dissector (overrides_buildAll dispatch_overrides)

/-! ## Orders of storage -/

/-- Answers a request where the tables are searched by name in the orders of storage. -/
def answerStored (o : StorageOrder) (s : Session) : Request → Reply × Session
  | .overrideByName messageId name =>
    match findNamed o.messages name with
    | some g => (.done, { s with dissector := s.dissector.override messageId g })
    | none => (.refused (.unknownGrammar name), s)
  | .findVersion name => (.grammar (findNamed o.versions name), s)
  | .findMessage name => (.grammar (findNamed o.messages name), s)
  | request => s.answer request

def answerAllStored (o : StorageOrder) (s : Session) : List Request → List Reply
  | [] => []
  | request :: more =>
    (answerStored o s request).1 :: answerAllStored o (answerStored o s request).2 more

/-- What requests leave that were made one after another. -/
def proceed (o : StorageOrder) (s : Session) : List Request → Session
  | [] => s
  | request :: more => proceed o (answerStored o s request).2 more

theorem answerAllStored_append (o : StorageOrder) (s : Session) (a b : List Request) :
    answerAllStored o s (a ++ b) = answerAllStored o s a ++ answerAllStored o (proceed o s a) b := by
  induction a generalizing s with
  | nil => rfl
  | cons request a ih =>
    simp only [List.cons_append, answerAllStored, proceed, ih]

theorem length_answerAllStored (o : StorageOrder) (s : Session) (requests : List Request) :
    (answerAllStored o s requests).length = requests.length := by
  induction requests generalizing s with
  | nil => rfl
  | cons request more ih =>
    simp only [answerAllStored, List.length_cons, ih]

/-- A session searches its tables by ascending key. -/
theorem answerStored_byKey {s : Session} {d : Dissector} (hversions : s.dissector.versions = d.versions)
    (hmessages : s.dissector.messages = d.messages) (request : Request) :
    answerStored (.byKey d) s request = s.answer request := by
  cases request with
  | overrideByName id name =>
    simp only [answerStored, answer, Dissector.overrideByName, hmessages, StorageOrder.byKey,
      findNamed_values]
    cases d.messages.findByName? name <;> rfl
  | findVersion name =>
    rw [answerStored, answer, hversions]
    rfl
  | findMessage name =>
    rw [answerStored, answer, hmessages]
    rfl
  | _ => rfl

/-! ## What requests write -/

/-- A request changes the overrides at most, and of these what it writes. -/
theorem dissector_answerStored (o : StorageOrder) (s : Session) (request : Request) :
    ∃ overrides, (answerStored o s request).2.dissector = { s.dissector with overrides } ∧
      ∀ id, overrides.get? id =
        (request.writesFound (findNamed o.messages) id).getD (s.dissector.overrides.get? id) := by
  cases request with
  | overrideByName other name =>
    cases hg : findNamed o.messages name with
    | none =>
      refine ⟨s.dissector.overrides, ?_, fun id => ?_⟩
      · simp only [answerStored, hg]
      · simp [Request.writesFound, hg]
    | some g =>
      refine ⟨s.dissector.overrides.insert other g, ?_, fun id => ?_⟩
      · simp only [answerStored, hg]
        rfl
      · rw [OrderedMap.get?_insert]
        by_cases h : other = id <;> simp [Request.writesFound, hg, rank_inj, h]
  | override other g =>
    refine ⟨s.dissector.overrides.insert other g, rfl, fun id => ?_⟩
    rw [OrderedMap.get?_insert]
    by_cases h : other = id <;> simp [Request.writesFound, rank_inj, h]
  | clearOverride other =>
    refine ⟨s.dissector.overrides.erase other, rfl, fun id => ?_⟩
    rw [OrderedMap.get?_erase]
    by_cases h : other = id <;> simp [Request.writesFound, rank_inj, h]
  | clearOverrides => exact ⟨{}, rfl, fun id => rfl⟩
  | _ => exact ⟨s.dissector.overrides, rfl, fun id => rfl⟩

theorem dissector_proceed (o : StorageOrder) (s : Session) (requests : List Request) :
    ∃ overrides, (proceed o s requests).dissector = { s.dissector with overrides } ∧
      ∀ id, overrides.get? id =
        lastWrite (Request.writesFound (findNamed o.messages) id) (s.dissector.overrides.get? id)
          requests := by
  induction requests generalizing s with
  | nil => exact ⟨s.dissector.overrides, rfl, fun id => rfl⟩
  | cons request more ih =>
    obtain ⟨first, hfirst, hget⟩ := dissector_answerStored o s request
    obtain ⟨last, hlast, hget'⟩ := ih (answerStored o s request).2
    refine ⟨last, ?_, fun id => ?_⟩
    · rw [proceed, hlast, hfirst]
    · rw [hget', hfirst, lastWrite_cons, ← hget]

theorem answerAll_eq_byKey {s : Session} {d : Dissector} (hversions : s.dissector.versions = d.versions)
    (hmessages : s.dissector.messages = d.messages) (requests : List Request) :
    s.answerAll requests = (answerAllStored (.byKey d) s requests, proceed (.byKey d) s requests) := by
  induction requests generalizing s with
  | nil => rfl
  | cons request more ih =>
    obtain ⟨_, hdissector, -⟩ := dissector_answerStored (.byKey d) s request
    have hmore := ih (s := (answerStored (.byKey d) s request).2) (by rw [hdissector]; exact hversions)
      (by rw [hdissector]; exact hmessages)
    simp only [answerAllStored, proceed, answerAll, ← answerStored_byKey hversions hmessages, hmore]

theorem dissector_answerAll (s : Session) (requests : List Request) :
    ∃ overrides, (s.answerAll requests).2.dissector = { s.dissector with overrides } ∧
      ∀ id, overrides.get? id =
        lastWrite (Request.writes s.dissector.messages id) (s.dissector.overrides.get? id)
          requests := by
  rw [answerAll_eq_byKey (d := s.dissector) rfl rfl]
  exact dissector_proceed (.byKey s.dissector) s requests

theorem answerAll_append (s : Session) (a b : List Request) :
    s.answerAll (a ++ b) =
      ((s.answerAll a).1 ++ ((s.answerAll a).2.answerAll b).1, ((s.answerAll a).2.answerAll b).2) := by
  induction a generalizing s with
  | nil => rfl
  | cons request a ih =>
    simp only [List.cons_append, answerAll, ih]

theorem length_answerAll (s : Session) (requests : List Request) :
    (s.answerAll requests).1.length = requests.length := by
  rw [answerAll_eq_byKey (d := s.dissector) rfl rfl]
  exact length_answerAllStored _ s requests

/-- A new session with the dissector, after requests that were made one after another. -/
def after (o : StorageOrder) (d : Dissector) (requests : List Request) : Session :=
  proceed o ⟨d, []⟩ requests

/-- The override that requests leave, the oldest of them first. -/
def written (o : StorageOrder) (requests : List Request) (id : UInt8) : Option Grammar :=
  lastWrite (Request.writesFound (findNamed o.messages) id) none requests

/-- What holds of the overrides of a new session with the dissector after requests, where its tables are stored
in the order `o`. -/
structure Overlay (o : StorageOrder) (d : Dissector) (requests : List Request) : Prop where
  /-- A session by itself searches its tables by key. -/
  byKey : answerAll ⟨d, []⟩ requests =
    (answerAllStored (.byKey d) ⟨d, []⟩ requests, after (.byKey d) d requests)
  /-- A request is answered as the requests before it have left the session. -/
  replied (request : Request) (more : List Request) :
    (answerAllStored o ⟨d, []⟩ (requests ++ request :: more))[requests.length]? =
      some (answerStored o (after o d requests) request).1
  /-- What was written last stands over the table. -/
  effective (id : UInt8) :
    (after o d requests).dissector.effective? id =
      (written o requests id).or (d.messages.get? id)
  /-- Clearing an override says whether there was one. -/
  existed (id : UInt8) :
    (answerStored o (after o d requests) (.clearOverride id)).1 = .existed (written o requests id).isSome
  /-- A name that grammars of the table have stands for one of them. -/
  taken (id : UInt8) (name : String) (key : UInt8) (g : Grammar) (hg : d.messages.get? key = some g)
    (hname : sameName g.name name = true) :
    ∃ first found, d.messages.get? first = some found ∧ sameName found.name name = true ∧
      (answerStored o (after o d requests) (.overrideByName id name)).1 = .done ∧
      written o (requests ++ [.overrideByName id name]) id = some found
  /-- A name that no grammar of the table has is refused and changes nothing. -/
  refused (id : UInt8) (name : String)
    (h : ∀ key g, d.messages.get? key = some g → sameName g.name name = false) :
    answerStored o (after o d requests) (.overrideByName id name) =
      (.refused (.unknownGrammar name), after o d requests)
  /-- A request about one identifier leaves all others alone. -/
  others (request : Request) (id : UInt8) (h : request.subject? = some id) (other : UInt8)
    (hne : other ≠ id) :
    let next := (answerStored o (after o d requests) request).2
    next.dissector.overrides.get? other = (after o d requests).dissector.overrides.get? other ∧
      next.dissector.effective? other = (after o d requests).dissector.effective? other
  /-- The list has a line for each override and no other, by ascending identifier. -/
  listed : ∃ lines, (answerStored o (after o d requests) .overrides).1 = .overrides lines ∧
    (answerStored o (after o d requests) .overrideCount).1 = .count lines.length ∧
    (lines.Pairwise fun a b => a.messageId < b.messageId) ∧
    ∀ line, line ∈ lines ↔ ∃ g, written o requests line.messageId = some g ∧
      line.default = (d.messages.get? line.messageId).map Grammar.name ∧ line.current = g.name
  /-- Of a message only the grammar in effect for its identifier counts, unless a parser turns to another
  identifier. -/
  dissected (others : List Request) (id : UInt8)
    (heffective : (after o d others).dissector.effective? id = (after o d requests).dissector.effective? id)
    (h : (after o d requests).dissector.Binds Parser.plain)
    (h' : (after o d others).dissector.Binds Parser.plain)
    (hversions : ∀ {version g}, d.versions.get? version = some g → g.parser.scriptFree)
    (pdu : Octets) (hid : pdu[1]? = some id) :
    (after o d others).dissector.dispatch pdu = (after o d requests).dissector.dispatch pdu

section

variable {d : Dissector} (hd : d.overrides = {})
include hd

theorem dissector_after (o : StorageOrder) (requests : List Request) :
    ∃ overrides, (after o d requests).dissector = { d with overrides } ∧
      ∀ id, overrides.get? id = written o requests id := by
  obtain ⟨overrides, hdissector, hget⟩ := dissector_proceed o ⟨d, []⟩ requests
  refine ⟨overrides, hdissector, fun id => ?_⟩
  rw [hget, hd]
  rfl

theorem overlay {o : StorageOrder} (ho : o.Of d) (requests : List Request) : Overlay o d requests := by
  obtain ⟨overrides, hafter, hget⟩ := dissector_after hd o requests
  have hmessages : (after o d requests).dissector.messages = d.messages := by rw [hafter]
  have hwritten : ∀ id, (after o d requests).dissector.overrides.get? id = written o requests id := by
    rw [hafter]
    exact hget
  constructor
  case byKey => exact answerAll_eq_byKey rfl rfl requests
  case replied =>
    intro request more
    rw [answerAllStored_append, List.getElem?_append_right (Nat.le_of_eq (length_answerAllStored _ _ _)),
      length_answerAllStored, Nat.sub_self]
    rfl
  case effective =>
    intro id
    rw [Dissector.effective?_eq, hwritten, hmessages]
  case existed =>
    intro id
    rw [← hwritten]
    rfl
  case taken =>
    intro id name key g hg hname
    obtain ⟨first, found, hfound, hfirst, hsame⟩ := findNamed_of_named ho.messages hg hname
    refine ⟨first, found, hfirst, hsame, ?_, ?_⟩
    · simp only [answerStored, hfound]
    · rw [written, lastWrite_append, lastWrite_singleton]
      simp [Request.writesFound, hfound]
  case refused =>
    intro id name h
    simp only [answerStored, findNamed_eq_none ho.messages h]
  case others =>
    intro request id h other hne
    obtain ⟨overrides', hnext, hget'⟩ := dissector_answerStored o (after o d requests) request
    have hwrites : request.writesFound (findNamed o.messages) other = none := by
      cases request <;> cases h <;> simp [Request.writesFound, hne.symm]
    have hsame : overrides'.get? other = (after o d requests).dissector.overrides.get? other := by
      rw [hget', hwrites]
      rfl
    dsimp only
    rw [Dissector.effective?_eq, Dissector.effective?_eq, hnext]
    exact ⟨hsame, by rw [hsame]⟩
  case listed =>
    refine ⟨(after o d requests).dissector.overrideList, rfl, ?_,
      Dissector.ascending_overrideList _, fun line => ?_⟩
    · rw [Dissector.overrideList, List.length_map]
      rfl
    · rw [Dissector.mem_overrideList, hwritten, hmessages]
  case dissected =>
    intro others id heffective h h' hversions pdu hid
    obtain ⟨overrides', hafter', -⟩ := dissector_after hd o others
    rw [hafter, hafter'] at heffective
    rw [hafter] at h
    rw [hafter'] at h'
    rw [hafter, hafter']
    exact dispatch_overrides overrides' h h' hversions hid heffective

end

/-- Whatever is asked of a new session, and in whatever order, its overrides are an overlay of the table of
messages in which the last write counts. -/
theorem overlay_of_build (config : Config) (steps : List BuildStep) {o : StorageOrder}
    (ho : o.Of (Dissector.buildAll steps (Dissector.empty config)).2) (requests : List Request) :
    Overlay o (Dissector.buildAll steps (Dissector.empty config)).2 requests :=
  overlay (overrides_buildAll steps _) ho requests

open Dissector (noCam cam) in
theorem overlay_of_build_cam :
    let d := (Dissector.buildAll [.standard] (Dissector.empty {})).2
    let o : StorageOrder := ⟨d.versions.grammars.values.reverse, d.messages.grammars.values.reverse⟩
    let first : List Request := [.override 2 noCam]
    let second : List Request := [.override 7 noCam, .override 2 noCam]
    (after o d second).dissector.dispatch cam = (after o d first).dissector.dispatch cam ∧
      answerStored o (after o d second) (.overrideByName 2 "CPM") =
        (.refused (.unknownGrammar "CPM"), after o d second) ∧
      (answerStored o (after o d second) (.clearOverride 7)).2.dissector.effective? 2 = some noCam := by
  intro d o first second
  have ho : o.Of d := ⟨List.reverse_perm _, List.reverse_perm _⟩
  have hstandard : Dissector.standard {} = .ok d := rfl
  have hfirst := overlay_of_build {} [.standard] ho first
  have hsecond := overlay_of_build {} [.standard] ho second
  have hcam : noCam.parser.plain := trivial
  have hplain := Dissector.plain_standard hstandard
  have heffective : (after o d second).dissector.effective? 2 = some noCam := hsecond.effective 2
  refine ⟨?_, ?_, ?_⟩
  · refine hfirst.dissected second 2 (heffective.trans (hfirst.effective 2).symm) ?_ ?_ ?_ cam rfl
    · exact hplain.override hcam
    · exact (hplain.override hcam).override hcam
    · intro version g hg
      rw [Dissector.version_standard hstandard hg]
      trivial
  · refine hsecond.refused 2 "CPM" fun key g hg => ?_
    have hall : (d.messages.grammars.entries.all fun entry => !sameName entry.2.name "CPM") = true := by
      decide +kernel
    have hmem := (OrderedMap.get?_eq_some_iff _ _ _).mp hg
    simpa using List.all_eq_true.mp hall _ hmem
  · rw [(hsecond.others (.clearOverride 7) 7 rfl 2 (by decide)).2, heffective]

def greeting : Grammar :=
  ⟨"greeting", "Greeting", .script [.parseMessage none, .dispatch 7 (some [1])]⟩

/-- A version may go to a parser that turns to an identifier of its own. Its messages are then dissected
otherwise under an override of that identifier, though their own is left the same grammar. -/
theorem not_dissected_of_script :
    ¬ ∀ (config : Config) (steps : List BuildStep) (requests others : List Request) (id : UInt8),
      let d := (Dissector.buildAll steps (Dissector.empty config)).2
      let o : StorageOrder := .byKey d
      (after o d others).dissector.effective? id = (after o d requests).dissector.effective? id →
      (after o d requests).dissector.Binds Parser.plain →
      (after o d others).dissector.Binds Parser.plain →
      ∀ pdu : Octets, pdu[1]? = some id →
        (((after o d requests).dissector.dispatch pdu).header.map Header.messageId) = some id →
        (after o d others).dissector.dispatch pdu = (after o d requests).dissector.dispatch pdu := by
  intro h
  let steps : List BuildStep := [.register (.version 9 greeting)]
  let d := (Dissector.buildAll steps (Dissector.empty {})).2
  have hempty : d.Binds Parser.plain := by
    constructor <;> intro _ _ hg <;> cases hg
  have hdispatch := h {} steps [] [.override 7 ⟨"seven", "Seven", .marker "octets"⟩] 1 rfl hempty
    (hempty.override trivial) [9, 1, 0, 0, 0, 0] rfl (by decide +kernel)
  have hnames := congrArg (fun result => result.tree.children.map Node.name) hdispatch
  revert hnames
  decide +kernel

end Session

end V2x
