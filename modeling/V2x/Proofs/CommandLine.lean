import V2x.CommandLine.Run
import V2x.Proofs.Reordering
import V2x.Proofs.Text

/-!
# The command line as a fold

Settings are taken up one after another and lines are dissected one after another, each up to the first that is
faulty (`folds`). Messages that are given as arguments are dissected as the same lines of the input would be. How
arguments are read is left open but for what the reader makes of a double dash.
-/

namespace V2x.CommandLine

/-! ## Mappings -/

section

variable {d d' : Dissector} {mapping : String} {id : UInt8} {g : Grammar}

/-- The mapping forces a grammar, which is that of some message, on the message identifier. -/
def Forces (messages : Table UInt8) (mapping : String) (id : UInt8) (g : Grammar) : Prop :=
  ∃ left right : String, mapping = left ++ "=" ++ right ∧ '=' ∉ left.toList ∧
    Text.Numeral.Denotes (Text.trim left) id.toNat ∧
    (∃ key, messages.get? key = some g) ∧ sameName g.name (Text.trim right) = true

/-- What is wrong with a mapping that forces nothing. -/
inductive Faulty (messages : Table UInt8) (mapping : String) : Failure → Prop
  | unsplit (h : '=' ∉ mapping.toList) : Faulty messages mapping (.malformedMapping mapping)
  | messageId {left right : String} {error : Text.Numeral.Error} (h : mapping = left ++ "=" ++ right)
    (hleft : '=' ∉ left.toList) (hid : ∀ id : UInt8, ¬ Text.Numeral.Denotes (Text.trim left) id.toNat)
    (herror : Text.Numeral.parse 255 (Text.trim left) = .error error) :
    Faulty messages mapping (.messageId error)
  | grammar {left right : String} {id : UInt8} (h : mapping = left ++ "=" ++ right)
    (hleft : '=' ∉ left.toList) (hid : Text.Numeral.Denotes (Text.trim left) id.toNat)
    (hname : ∀ key g, messages.get? key = some g → sameName g.name (Text.trim right) = false) :
    Faulty messages mapping (.refused (.unknownGrammar (Text.trim right)))

/-- The last of the mappings that force a grammar on the identifier forces this one. -/
def LastForces (messages : Table UInt8) (mappings : List String) (id : UInt8) (g : Grammar) : Prop :=
  ∃ before mapping after, mappings = before ++ mapping :: after ∧ Forces messages mapping id g ∧
    ∀ m ∈ after, ∀ g', ¬ Forces messages m id g'

/-- The mappings force these, one each. -/
def AllForce (messages : Table UInt8) : List String → List (UInt8 × Grammar) → Prop :=
  List.Forall₂ fun mapping f => Forces messages mapping f.1 f.2

theorem splitFirst?_of_eq {left right : String} (h : mapping = left ++ "=" ++ right)
    (hleft : '=' ∉ left.toList) : Text.splitFirst? '=' mapping = some (left, right) := by
  apply Text.splitFirst?_of_append _ hleft
  simp [h]

theorem parse_eq_ok_toNat {text : String} :
    Text.Numeral.parse 255 text = .ok id.toNat ↔ Text.Numeral.Denotes text id.toNat := by
  have hle : id.toNat ≤ 255 := Nat.le_of_lt_succ id.toNat_lt
  rw [Text.Numeral.parse_eq_ok]
  exact and_iff_left hle

theorem Forces.readMapping_eq (hnames : d.NamesApart) (h : Forces d.messages mapping id g) :
    readMapping d.messages mapping = .ok (id, g) := by
  obtain ⟨left, right, heq, hleft, hid, ⟨key, hkey⟩, hname⟩ := h
  obtain ⟨first, found, hfind, hfirst, hfound⟩ := findNamed_of_named (.refl _) hkey hname
  rw [findNamed_values] at hfind
  obtain rfl := hnames.eq_of_named hfirst hkey hfound hname
  have hparse := parse_eq_ok_toNat.mpr hid
  simp [readMapping, splitFirst?_of_eq heq hleft, hparse, hfind]

theorem Faulty.readMapping_eq {failure : Failure} (h : Faulty d.messages mapping failure) :
    readMapping d.messages mapping = .error failure := by
  cases h with
  | unsplit h => simp [readMapping, Text.splitFirst?_of_not_mem h]
  | messageId heq hleft hid herror => simp [readMapping, splitFirst?_of_eq heq hleft, herror]
  | grammar heq hleft hid hname =>
    have hparse := parse_eq_ok_toNat.mpr hid
    have hfind := findNamed_eq_none (.refl _) hname
    rw [findNamed_values] at hfind
    simp [readMapping, splitFirst?_of_eq heq hleft, hparse, hfind]

/-- A mapping forces a grammar or is faulty. -/
theorem forces_or_faulty (d : Dissector) (mapping : String) :
    (∃ id g, Forces d.messages mapping id g) ∨ ∃ failure, Faulty d.messages mapping failure := by
  by_cases hsign : '=' ∈ mapping.toList
  · obtain ⟨l, r, hsplit, hl⟩ := List.eq_append_cons_of_mem hsign
    have heq : mapping = String.ofList l ++ "=" ++ String.ofList r := by
      apply String.toList_inj.mp
      simp [hsplit]
    have hleft : '=' ∉ (String.ofList l).toList := by simpa using hl
    cases hparse : Text.Numeral.parse 255 (Text.trim (String.ofList l)) with
    | error error =>
      refine .inr ⟨_, .messageId heq hleft (fun id hid => ?_) hparse⟩
      rw [parse_eq_ok_toNat.mpr hid] at hparse
      cases hparse
    | ok n =>
      obtain ⟨hid, hle⟩ := Text.Numeral.parse_eq_ok.mp hparse
      have hn : (UInt8.ofNat n).toNat = n := UInt8.toNat_ofNat_of_lt' (Nat.lt_succ_of_le hle)
      rw [← hn] at hid
      by_cases hname : ∃ key g, d.messages.get? key = some g ∧
          sameName g.name (Text.trim (String.ofList r)) = true
      · obtain ⟨key, g, hkey, hname⟩ := hname
        exact .inl ⟨_, g, _, _, heq, hleft, hid, ⟨key, hkey⟩, hname⟩
      · refine .inr ⟨_, .grammar heq hleft hid fun key g hkey => ?_⟩
        rw [← Bool.not_eq_true]
        exact fun hsame => hname ⟨key, g, hkey, hsame⟩
  · exact .inr ⟨_, .unsplit hsign⟩

theorem Forces.unique (hnames : d.NamesApart) {id' : UInt8} {g' : Grammar}
    (h : Forces d.messages mapping id g) (h' : Forces d.messages mapping id' g') : id = id' ∧ g = g' := by
  obtain ⟨left, right, heq, hleft, hid, ⟨key, hkey⟩, hname⟩ := h
  obtain ⟨left', right', heq', hleft', hid', ⟨key', hkey'⟩, hname'⟩ := h'
  have hsplit := (splitFirst?_of_eq heq hleft).symm.trans (splitFirst?_of_eq heq' hleft')
  simp only [Option.some.injEq, Prod.mk.injEq] at hsplit
  obtain ⟨rfl, rfl⟩ := hsplit
  have hparse := (parse_eq_ok_toNat.mpr hid).symm.trans (parse_eq_ok_toNat.mpr hid')
  exact ⟨UInt8.toNat_inj.mp (Except.ok.inj hparse), hnames.eq_of_named hkey hkey' hname hname'⟩

theorem lastForces_concat {ms : List String} {m : String} :
    LastForces d.messages (ms ++ [m]) id g ↔
      Forces d.messages m id g ∨ LastForces d.messages ms id g ∧ ∀ g', ¬ Forces d.messages m id g' := by
  constructor
  · rintro ⟨before, last, after, hsplit, hforces, hnone⟩
    rcases List.eq_nil_or_concat after with rfl | ⟨after, z, rfl⟩
    · obtain rfl : m = last := by simpa using (List.append_inj' hsplit rfl).2
      exact .inl hforces
    · rw [List.concat_eq_append, ← List.cons_append, ← List.append_assoc] at hsplit
      obtain ⟨rfl, hz⟩ := List.append_inj' hsplit rfl
      obtain rfl : m = z := by simpa using hz
      refine .inr ⟨⟨before, last, after, rfl, hforces, fun m' hm' => ?_⟩, hnone m (by simp)⟩
      exact hnone m' (by simp [hm'])
  · rintro (hforces | ⟨⟨before, last, after, rfl, hforces, hnone⟩, hm⟩)
    · exact ⟨ms, m, [], rfl, hforces, by simp⟩
    · refine ⟨before, last, after ++ [m], by simp, hforces, fun m' hm' => ?_⟩
      rcases List.mem_append.mp hm' with hafter | hlast
      · exact hnone m' hafter
      · rwa [List.mem_singleton.mp hlast]

/-- Mappings are read up to the first that is faulty. -/
theorem readAll_mappings (hnames : d.NamesApart) (ms : List String) :
    ∃ before forced, AllForce d.messages before forced ∧
      (ms = before ∧ readAll (readMapping d.messages) ms = (forced, none) ∨
        ∃ mapping after failure, ms = before ++ mapping :: after ∧ Faulty d.messages mapping failure ∧
          readAll (readMapping d.messages) ms = (forced, some failure)) := by
  induction ms with
  | nil => exact ⟨[], [], .nil, .inl ⟨rfl, rfl⟩⟩
  | cons m ms ih =>
    rw [readAll]
    rcases forces_or_faulty d m with ⟨id, g, hm⟩ | ⟨failure, hm⟩
    · obtain ⟨before, forced, hforced, hended⟩ := ih
      rw [hm.readMapping_eq hnames]
      refine ⟨m :: before, (id, g) :: forced, .cons hm hforced, ?_⟩
      rcases hended with ⟨rfl, hread⟩ | ⟨mapping, after, failure, rfl, hmapping, hread⟩
      · exact .inl ⟨rfl, by rw [hread]⟩
      · exact .inr ⟨mapping, after, failure, rfl, hmapping, by rw [hread]⟩
    · rw [hm.readMapping_eq]
      exact ⟨[], [], .nil, .inr ⟨m, ms, failure, rfl, hm, rfl⟩⟩

theorem AllForce.forall {ms : List String} {forced : List (UInt8 × Grammar)}
    (h : AllForce d.messages ms forced) : ∀ m ∈ ms, ∃ id g, Forces d.messages m id g := by
  induction h with
  | nil => exact nofun
  | @cons m f ms forced hm _ ih =>
    intro m' hm'
    rcases List.mem_cons.mp hm' with rfl | hmore
    · exact ⟨f.1, f.2, hm⟩
    · exact ih m' hmore

theorem force_eq (d : Dissector) (forced : List (UInt8 × Grammar)) :
    force d forced = { d with overrides := (force d forced).overrides } := by
  induction forced generalizing d with
  | nil => rfl
  | cons f forced ih => exact ih (d.override f.1 f.2)

/-- Of several grammars forced on one identifier the last is in effect. -/
theorem get?_force (hnames : d.NamesApart) (hempty : d.overrides = {}) {ms : List String}
    {forced : List (UInt8 × Grammar)} (h : AllForce d.messages ms forced) (id : UInt8) (g : Grammar) :
    (force d forced).overrides.get? id = some g ↔ LastForces d.messages ms id g := by
  -- The last mapping counts, so the induction goes from the end of the list.
  obtain ⟨rms, rfl⟩ : ∃ rms, ms = rms.reverse := ⟨ms.reverse, ms.reverse_reverse.symm⟩
  obtain ⟨rforced, rfl⟩ : ∃ rforced, forced = rforced.reverse :=
    ⟨forced.reverse, forced.reverse_reverse.symm⟩
  rw [AllForce, List.forall₂_reverse_iff] at h
  induction h with
  | nil => simp [force, hempty, LastForces]
  | @cons m f rms rforced hm _ ih =>
    have hlast : force d (f :: rforced).reverse = (force d rforced.reverse).override f.1 f.2 := by
      rw [List.reverse_cons, force, List.foldl_append]
      rfl
    rw [hlast, Dissector.override, OrderedMap.get?_insert, List.reverse_cons, lastForces_concat, ← ih]
    simp only [rank_inj]
    by_cases hid : f.1 = id
    · rw [if_pos hid, Option.some.injEq]
      constructor
      · rintro rfl
        exact .inl (hid ▸ hm)
      · rintro (hm' | ⟨-, hnone⟩)
        · exact (hm.unique hnames hm').2
        · exact absurd (hid ▸ hm) (hnone f.2)
    · have hnone : ∀ g', ¬ Forces d.messages m id g' := fun g' hm' => hid (hm.unique hnames hm').1
      rw [if_neg hid]
      simp [hnone]

end

/-- No two of the standard messages have the same name. -/
theorem namesApart_standard {config : Config} {d : Dissector}
    (h : Dissector.standard config = .ok d) : d.NamesApart := by
  have hnames : ∀ a ∈ (1, "DENM") :: (10, "SSEM") :: Registration.undecodedFamilies,
      ∀ b ∈ (1, "DENM") :: (10, "SSEM") :: Registration.undecodedFamilies,
        sameName a.2 b.2 = true → a.1 = b.1 := by decide
  have hmem : ∀ {id : UInt8} {g : Grammar}, d.messages.get? id = some g →
      (id, g.name) ∈ (1, "DENM") :: (10, "SSEM") :: Registration.undecodedFamilies := by
    intro id g hg
    have hregistered := (Dissector.bound_standard h (.message id g)).mp hg
    simp only [Registration.standard, List.mem_append, List.mem_map, List.mem_cons, reduceCtorEq,
      and_false, exists_false, Registration.message.injEq, List.not_mem_nil, or_false, false_or,
      Registration.extensions, Registration.groupC] at hregistered
    rcases hregistered with (⟨rfl, rfl⟩ | ⟨rfl, rfl⟩) | ⟨family, hfamily, rfl, rfl⟩
    · exact List.mem_cons_self
    · exact List.mem_cons_of_mem _ List.mem_cons_self
    · exact List.mem_cons_of_mem _ (List.mem_cons_of_mem _ hfamily)
  intro id id' g g' hg hg'
  exact hnames _ (hmem hg) _ (hmem hg')

/-! ## Lines -/

/-- The messages that lines hold: what is left of each without blanks around it, unless that is empty or a
comment. -/
def messagesOf (lines : List String) : List String :=
  (lines.map Text.trim).filter fun line => line ≠ "" ∧ !line.startsWith "#"

theorem inputPdus_of_input {lines : List String} {input : String} (h : Text.Input lines input) :
    inputPdus input = messagesOf lines := by
  unfold inputPdus messagesOf
  rcases Text.lines_of_input h with heq | heq
  · rw [heq]
  · have hempty : Text.trim "" = "" := rfl
    rw [heq, List.map_append, List.filter_append]
    simp [hempty]

/-- Texts are read up to the first that is not hexadecimal. -/
theorem readAll_decode (texts : List String) :
    ∃ (pdus : List Octets) (error : Option Text.Hex.Error) (rest : List (Except Text.Hex.Error Octets)),
      readAll Text.Hex.decode texts = (pdus, error) ∧ texts.map Text.Hex.decode = pdus.map .ok ++ rest ∧
      (rest = [] ∧ error = none ∨ ∃ e more, rest = .error e :: more ∧ error = some e) := by
  induction texts with
  | nil => exact ⟨[], none, [], rfl, rfl, .inl ⟨rfl, rfl⟩⟩
  | cons text texts ih =>
    rw [readAll, List.map_cons]
    cases hdecode : Text.Hex.decode text with
    | error error => exact ⟨[], some error, _, rfl, rfl, .inr ⟨error, _, rfl, rfl⟩⟩
    | ok pdu =>
      obtain ⟨pdus, error, rest, hread, hmap, hended⟩ := ih
      exact ⟨pdu :: pdus, error, rest, by rw [hread], by rw [hmap]; rfl, hended⟩

/-! ## Runs -/

/-- What is printed of a dissection: its tree, for a message with a header a line that says what its identifier was
taken for, and an empty line. -/
inductive Prints (d : Dissection) : String → Prop
  | headed {header : Header} (h : d.header = some header) :
    Prints d (d.tree.render ++
      (s!"[{promptFor header.messageId} parsed as " ++ d.grammar.getD "data" ++ "]\n") ++ "\n")
  | headless (h : d.header = none) : Prints d (d.tree.render ++ "\n")

theorem prints_printed (d : Dissection) : Prints d (printed d) := by
  unfold printed Dissection.prompt?
  cases h : d.header with
  | none =>
    have hheadless := Prints.headless h
    rwa [← String.append_empty (s := d.tree.render)] at hheadless
  | some header => exact .headed h

/-- What a run comes to whose arguments `parse` reads as `o`, where `d` is the standard dissector of its
policy. -/
structure Folds (parse : List String → Except Stop Options) (args : List String) (o : Options)
    (d : Dissector) : Prop where
  /-- The first faulty mapping ends the run before anything is printed. -/
  rejected (h : ¬ ∀ m ∈ o.mappings, ∃ id g, Forces d.messages m id g) (input : String) :
    ∃ before mapping after forced failure, o.mappings = before ++ mapping :: after ∧
      AllForce d.messages before forced ∧ Faulty d.messages mapping failure ∧
      outcome parse args input =
        ⟨1, "", preamble d forced ++ [.line s!"Error: {failure.report}\n"]⟩
  /-- Otherwise the messages of the lines are dissected, up to the first that is not hexadecimal, under the last
  mapping for each identifier. -/
  dissected (h : ∀ m ∈ o.mappings, ∃ id g, Forces d.messages m id g) {lines : List String}
    {input : String} (hinput : Text.Input lines input) :
    ∃ (forced : List (UInt8 × Grammar)) (overrides : OrderedMap UInt8 Grammar) (pdus : List Octets)
      (rest : List (Except Text.Hex.Error Octets)) (texts : List String),
      AllForce d.messages o.mappings forced ∧
      (∀ id g, overrides.get? id = some g ↔ LastForces d.messages o.mappings id g) ∧
      (messagesOf lines).map Text.Hex.decode = pdus.map .ok ++ rest ∧
      let d' := { d with overrides }
      let stderr := preamble d forced ++
        (d'.overrideList.map fun line =>
          let default := line.default.getD "(none)"
          .line s!"{promptFor line.messageId}: {default} -> {line.current}\n") ++
        pdus.map fun pdu => .logged (.dissect d' pdu)
      List.Forall₂ (fun pdu text => Prints (d'.dispatch pdu) text) pdus texts ∧
      (rest = [] ∧ outcome parse args input = ⟨0, String.join texts, stderr⟩ ∨
        ∃ error more, rest = .error error :: more ∧ outcome parse args input =
          ⟨1, String.join texts, stderr ++ [.line s!"Error: {(Failure.hex error).report}\n"]⟩)
  /-- Messages that could be lines of the input may as well be given as arguments, if all that follows a double
  dash is handed over unchanged. -/
  positional {pdus : List String} (hover : parse (args ++ "--" :: pdus) = .ok { o with pdus })
    (hne : pdus ≠ []) (h : ∀ pdu ∈ pdus, pdu ≠ "" ∧ Text.trim pdu = pdu ∧ pdu.startsWith "#" = false)
    {input : String} (hinput : Text.Input pdus input) (unread : String) :
    outcome parse (args ++ "--" :: pdus) unread = outcome parse args input

theorem messagesOf_eq_self {pdus : List String}
    (h : ∀ pdu ∈ pdus, pdu ≠ "" ∧ Text.trim pdu = pdu ∧ pdu.startsWith "#" = false) :
    messagesOf pdus = pdus := by
  have htrim : pdus.map Text.trim = pdus := by
    refine (List.map_congr_left fun pdu hpdu => ?_).trans (List.map_id pdus)
    exact (h pdu hpdu).2.1
  unfold messagesOf
  rw [htrim, List.filter_eq_self]
  intro pdu hpdu
  obtain ⟨hne, -, hcomment⟩ := h pdu hpdu
  simp [hne, hcomment]

section

variable {o : Options} {d : Dissector} (hd : Dissector.standard { noRegion := o.noRegion } = .ok d)
  {forced : List (UInt8 × Grammar)}
include hd

theorem outcomeOf_of_faulty {failure : Failure}
    (hread : readAll (readMapping d.messages) o.mappings = (forced, some failure)) (input : String) :
    outcomeOf o input = failed "" (preamble d forced) failure := by
  rw [outcomeOf, hd]
  dsimp only
  rw [hread]

theorem outcomeOf_of_forced (hread : readAll (readMapping d.messages) o.mappings = (forced, none))
    (hlisten : o.listen = none) (input : String) :
    let stderr := preamble d forced ++ (force d forced).overrideList.map fun o => .line (overrideLine o)
    outcomeOf o input =
      dissectAll (force d forced) stderr (if o.pdus.isEmpty then inputPdus input else o.pdus) := by
  rw [outcomeOf, hd]
  dsimp only
  rw [hread, hlisten]
  rfl

end

theorem folds (parse : List String → Except Stop Options) {args : List String} {o : Options}
    (hargs : parse args = .ok o) (hlisten : o.listen = none) (hpdus : o.pdus = []) :
    ∃ d, Dissector.standard { noRegion := o.noRegion } = .ok d ∧ Folds parse args o d := by
  obtain ⟨d, hd⟩ : ∃ d, Dissector.standard { noRegion := o.noRegion } = .ok d := by
    cases o.noRegion <;> exact ⟨_, rfl⟩
  have hnames : d.NamesApart := namesApart_standard hd
  have hrun : ∀ input, outcome parse args input = outcomeOf o input := by
    intro input
    rw [outcome, hargs]
  obtain ⟨before, forced, hforced, hread⟩ := readAll_mappings hnames o.mappings
  refine ⟨d, hd, ?_⟩
  constructor
  case rejected =>
    intro h input
    rcases hread with ⟨heq, -⟩ | ⟨mapping, after, failure, heq, hmapping, hread⟩
    · exact absurd (heq ▸ hforced.forall) h
    · refine ⟨before, mapping, after, forced, failure, heq, hforced, hmapping, ?_⟩
      rw [hrun, outcomeOf_of_faulty hd hread]
      rfl
  case dissected =>
    intro h lines input hinput
    rcases hread with ⟨rfl, hread⟩ | ⟨mapping, after, failure, heq, hmapping, -⟩
    · obtain ⟨pdus, error, rest, hdecode, hmap, hended⟩ := readAll_decode (messagesOf lines)
      have hoverrides : ({ d with overrides := (force d forced).overrides } : Dissector) = force d forced :=
        (force_eq d forced).symm
      refine ⟨forced, (force d forced).overrides, pdus, rest,
        pdus.map fun pdu => printed ((force d forced).dispatch pdu), hforced,
        get?_force hnames (Dissector.overrides_standard hd) hforced, hmap, ?_⟩
      rw [hoverrides, hrun, outcomeOf_of_forced hd hread hlisten, hpdus, inputPdus_of_input hinput,
        List.isEmpty_nil, if_pos rfl, dissectAll, hdecode]
      refine ⟨?_, ?_⟩
      · rw [List.forall₂_map_right_iff, List.forall₂_same]
        exact fun pdu _ => prints_printed _
      · rcases hended with ⟨hrest, rfl⟩ | ⟨error, more, hrest, rfl⟩
        · exact .inl ⟨hrest, rfl⟩
        · exact .inr ⟨error, more, hrest, rfl⟩
    · -- A faulty mapping forces nothing.
      obtain ⟨id, g, hm⟩ := h mapping (heq ▸ List.mem_append_right _ List.mem_cons_self)
      have hboth := (hm.readMapping_eq hnames).symm.trans hmapping.readMapping_eq
      cases hboth
  case positional =>
    intro pdus hover hne h input hinput unread
    rw [outcome, hover, hrun]
    dsimp only
    rcases hread with ⟨-, hread⟩ | ⟨mapping, after, failure, -, -, hread⟩
    · rw [outcomeOf_of_forced hd hread hlisten, outcomeOf_of_forced (o := { o with pdus }) hd hread hlisten,
        hpdus, inputPdus_of_input hinput, messagesOf_eq_self h]
      simp [hne]
    · rw [outcomeOf_of_faulty hd hread, outcomeOf_of_faulty (o := { o with pdus }) hd hread]

/-! ## Arguments -/

/-- What may stand on the command line before the messages. -/
inductive Setting
  | force (mapping : String)
  | attemptNoRegion
  deriving DecidableEq

namespace Setting

def arguments : Setting → List String
  | .force mapping => ["-d", mapping]
  | .attemptNoRegion => ["--attempt-no-region"]

def mapping? : Setting → Option String
  | .force mapping => some mapping
  | .attemptNoRegion => none

end Setting

def arguments (settings : List Setting) : List String :=
  settings.flatMap Setting.arguments

def mappings (settings : List Setting) : List String :=
  settings.filterMap Setting.mapping?

namespace Options

def adjusted (o : Options) (settings : List Setting) : Options :=
  { o with
    mappings := o.mappings ++ CommandLine.mappings settings
    attemptNoRegion := o.attemptNoRegion || decide (.attemptNoRegion ∈ settings) }

theorem parseFrom_arguments (o : Options) (settings : List Setting) (rest : List String) :
    parseFrom false false o (arguments settings ++ rest) =
      parseFrom false false (o.adjusted settings) rest := by
  induction settings generalizing o with
  | nil => simp [arguments, adjusted, CommandLine.mappings]
  | cons setting settings ih =>
    cases setting with
    | force mapping =>
      have hstep : parseFrom false false o ("-d" :: mapping :: (arguments settings ++ rest)) =
          parseFrom false false { o with mappings := o.mappings ++ [mapping] }
            (arguments settings ++ rest) := by
        simp [parseFrom, valued?, set]
      refine hstep.trans ((ih _).trans ?_)
      simp [adjusted, CommandLine.mappings, Setting.mapping?]
    | attemptNoRegion =>
      have hstep : parseFrom false false o ("--attempt-no-region" :: (arguments settings ++ rest)) =
          parseFrom false false { o with attemptNoRegion := true } (arguments settings ++ rest) := by
        rw [parseFrom.eq_def]
        simp
      refine hstep.trans ((ih _).trans ?_)
      simp [adjusted, CommandLine.mappings, Setting.mapping?, List.filterMap_cons]

theorem parseFrom_ended (o : Options) (pdus : List String) :
    parseFrom true false o pdus = .ok { o with pdus := o.pdus ++ pdus } := by
  induction pdus generalizing o with
  | nil => simp [parseFrom]
  | cons pdu pdus ih =>
    have hstep : parseFrom true false o (pdu :: pdus) =
        parseFrom true false { o with pdus := o.pdus ++ [pdu] } pdus := by
      rw [parseFrom.eq_def]
      simp
    rw [hstep, ih, List.append_assoc, List.singleton_append]

theorem parse_arguments (settings : List Setting) :
    parse (arguments settings) = .ok (adjusted {} settings) := by
  have h := parseFrom_arguments {} settings []
  rw [List.append_nil] at h
  exact h

theorem parse_positional (settings : List Setting) (pdus : List String) :
    parse (arguments settings ++ "--" :: pdus) = .ok { adjusted {} settings with pdus } := by
  have hended : ∀ o : Options, parseFrom false false o ("--" :: pdus) = parseFrom true false o pdus := by
    intro o
    rw [parseFrom.eq_def]
    simp
  rw [parse, parseFrom_arguments, hended, parseFrom_ended]
  simp [adjusted]

end Options

theorem folds_samples :
    (outcome Options.parse (arguments [.force "1=ssem", .force "x"]) "00").stdout = "" ∧
      (∃ (d : Dissector) (text : String), Prints (d.dispatch [2]) text ∧
        (outcome Options.parse (arguments [.attemptNoRegion]) "# none\n02\n").stdout = text) ∧
      outcome Options.parse (arguments [.force "1=ssem"] ++ ["--", "0201", "zz"]) "" =
        outcome Options.parse (arguments [.force "1=ssem"]) "0201\nzz" := by
  have hparse (settings : List Setting) := Options.parse_arguments settings
  obtain ⟨d₁, -, h₁⟩ := folds Options.parse (hparse [.force "1=ssem", .force "x"]) rfl rfl
  obtain ⟨d₂, -, h₂⟩ := folds Options.parse (hparse [.attemptNoRegion]) rfl rfl
  obtain ⟨d₃, -, h₃⟩ := folds Options.parse (hparse [.force "1=ssem"]) rfl rfl
  refine ⟨?_, ?_, ?_⟩
  · have hx : ¬ ∃ id g, Forces d₁.messages "x" id g := by
      rintro ⟨id, g, left, right, heq, -⟩
      have hsign : '=' ∈ "x".toList := by simp [heq]
      exact absurd hsign (by decide)
    obtain ⟨_, _, _, _, failure, -, -, -, hrun⟩ := h₁.rejected (fun h => hx (h "x" (by decide))) "00"
    rw [hrun]
  · have hinput : Text.Input ["# none", "02"] "# none\n02\n" := ⟨by decide, .inr rfl⟩
    have hmessages : (messagesOf ["# none", "02"]).map Text.Hex.decode = [.ok [2]] := by decide +kernel
    have hmappings : (Options.adjusted {} [.attemptNoRegion]).mappings = [] := rfl
    obtain ⟨_, overrides, pdus, rest, texts, -, -, hmap, hprints, hended⟩ :=
      h₂.dissected (by simp [hmappings]) hinput
    rw [hmessages] at hmap
    rcases hended with ⟨rfl, hrun⟩ | ⟨error, more, rfl, -⟩
    · obtain rfl : pdus = [[2]] := by
        rw [List.append_nil] at hmap
        exact List.map_injective_iff.mpr (fun _ _ => Except.ok.inj) hmap.symm
      obtain ⟨text, _, htext, hnil, rfl⟩ := List.forall₂_cons_left_iff.mp hprints
      obtain rfl := List.forall₂_nil_left_iff.mp hnil
      refine ⟨_, text, htext, ?_⟩
      rw [hrun]
      simp [String.join]
    · have herror : (Except.error error : Except Text.Hex.Error Octets) ∈ [.ok [2]] := hmap ▸ by simp
      cases herror with
      | tail _ h => cases h
  · exact h₃.positional (Options.parse_positional _ _) (by simp) (by simp; decide) ⟨by decide, .inl rfl⟩ ""

end V2x.CommandLine
