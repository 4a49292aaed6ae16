import V2x.Proofs.Dissector.FirstWins
import V2x.Proofs.Session

/-!
# The order of registrations

Tables do not remember in which order their keys were bound, but a search by name meets the grammars of a table in
some order of storage. As long as no two message identifiers have grammars of the same name, neither order shows in
the replies to any sequence of requests (`replies_of_perm`).
-/

namespace V2x

theorem find?_eq_of_perm {α : Type} {p : α → Bool} {l l' : List α} (h : l.Perm l')
    (hunique : ∀ a ∈ l, ∀ b ∈ l, p a → p b → a = b) : l.find? p = l'.find? p := by
  cases hl : l.find? p with
  | none =>
    rw [eq_comm, List.find?_eq_none]
    intro a ha
    exact List.find?_eq_none.mp hl a (h.mem_iff.mpr ha)
  | some a =>
    have ha := List.mem_of_find?_eq_some hl
    have hpa := List.find?_some hl
    cases hl' : l'.find? p with
    | none => exact absurd hpa (List.find?_eq_none.mp hl' a (h.mem_iff.mp ha))
    | some b =>
      have hb := List.mem_of_find?_eq_some hl'
      rw [hunique a ha b (h.mem_iff.mpr hb) hpa (List.find?_some hl')]

namespace Dissector

open Registration (firstFor)

variable {d d' : Dissector}

/-- Message identifiers with grammars of the same name, up to the case of ASCII letters, are the same. -/
def NamesApart (d : Dissector) : Prop :=
  ∀ {id id' : UInt8} {g g' : Grammar}, d.messages.get? id = some g → d.messages.get? id' = some g' →
    sameName g.name g'.name = true → id = id'

theorem NamesApart.eq_of_named (h : d.NamesApart) {id id' : UInt8} {g g' : Grammar} {name : String}
    (hg : d.messages.get? id = some g) (hg' : d.messages.get? id' = some g')
    (hname : sameName g.name name = true) (hname' : sameName g'.name name = true) : g = g' := by
  have hsame : sameName g.name g'.name = true := by
    simp only [sameName, decide_eq_true_eq] at hname hname' ⊢
    exact hname.trans hname'.symm
  obtain rfl := h hg hg' hsame
  exact Option.some.inj (hg.symm.trans hg')

theorem NamesApart.findNamed_eq (h : d.NamesApart) {order order' : List Grammar}
    (horder : order.Perm d.messages.grammars.values)
    (horder' : order'.Perm d.messages.grammars.values) (name : String) :
    findNamed order name = findNamed order' name := by
  apply find?_eq_of_perm (horder.trans horder'.symm)
  intro g hg g' hg' hname hname'
  obtain ⟨id, hid⟩ := exists_get?_of_mem horder hg
  obtain ⟨id', hid'⟩ := exists_get?_of_mem horder hg'
  exact h.eq_of_named hid hid' hname hname'

theorem registerAll_of_buildAll {rs : List Registration}
    (h : ∀ outcome ∈ (buildAll (rs.map .register) d).1, outcome = none) :
    registerAll rs d = (none, (buildAll (rs.map .register) d).2) := by
  induction rs generalizing d with
  | nil => rfl
  | cons r rs ih =>
    simp only [List.map_cons, buildAll, build, registerAll, List.mem_cons, forall_eq_or_imp] at h ⊢
    cases hr : d.register r with
    | error refusal => simp [hr] at h
    | ok d₁ =>
      rw [hr] at h
      exact ih h.2

/-- Registrations for different keys, none of which is bound, all succeed. -/
theorem buildAll_of_nodup {rs : List Registration} (hfree : ∀ r ∈ rs, d.bound? r.target = none)
    (hnodup : (rs.map Registration.target).Nodup) :
    ∀ outcome ∈ (buildAll (rs.map .register) d).1, outcome = none := by
  induction rs generalizing d with
  | nil => simp [buildAll]
  | cons r rs ih =>
    rw [List.map_cons, List.nodup_cons] at hnodup
    obtain ⟨d₁, hregister, -, hbound⟩ := register_of_free (hfree r List.mem_cons_self)
    have hmore : ∀ r' ∈ rs, d₁.bound? r'.target = none := by
      intro r' hr'
      have hne : r.target ≠ r'.target := fun h => hnodup.1 (h ▸ List.mem_map_of_mem hr')
      rw [hbound, if_neg hne]
      exact hfree r' (List.mem_cons_of_mem _ hr')
    simp only [List.map_cons, buildAll, build, registerAll, hregister, List.mem_cons,
      forall_eq_or_imp, true_and]
    exact ih hmore hnodup.2

/-- Registrations that all succeed are for different keys, and just they are added. -/
theorem added_of_registerAll (hd : d.Named) {rs : List Registration}
    (h : registerAll rs d = (none, d')) :
    (rs.map Registration.target).Nodup ∧ Added d rs d' := by
  obtain ⟨added, rest, d₁, rfl, hhalts, hall, -, hadded⟩ := registerAll_halts hd rs
  rw [h] at hall
  cases rest with
  | cons r rest => simp at hall
  | nil =>
    simp only [List.head?_nil, Option.map_none, Prod.mk.injEq, true_and] at hall
    rw [List.append_nil, hall]
    refine ⟨nodup_of_splits fun x r y hsplit hr => ?_, hadded⟩
    exact hhalts.clean x r y hsplit (.inr hr)

theorem firstFor_eq_of_perm {first second : List Registration} (hperm : first.Perm second)
    (hnodup : (first.map Registration.target).Nodup) (t : Target) :
    firstFor first t = firstFor second t := by
  unfold firstFor
  rw [find?_eq_of_perm hperm]
  intro r hr r' hr' ht ht'
  rw [decide_eq_true_eq] at ht ht'
  exact List.inj_on_of_nodup_map hnodup hr hr' (ht.trans ht'.symm)

theorem eq_of_bound (hd : d.Named) (hd' : d'.Named) (hconfig : d.config = d'.config)
    (hoverrides : d.overrides = d'.overrides) (h : ∀ t, d.bound? t = d'.bound? t) : d = d' := by
  obtain ⟨config, ⟨versions, v⟩, ⟨messages, m⟩, ⟨extensions, e⟩, overrides⟩ := d
  obtain ⟨config', ⟨versions', v'⟩, ⟨messages', m'⟩, ⟨extensions', e'⟩, overrides'⟩ := d'
  obtain rfl : versions = versions' := hd.versions.trans hd'.versions.symm
  obtain rfl : messages = messages' := hd.messages.trans hd'.messages.symm
  obtain rfl : extensions = extensions' := hd.extensions.trans hd'.extensions.symm
  obtain rfl : v = v' := OrderedMap.ext_get? fun key => h (.version key)
  obtain rfl : m = m' := OrderedMap.ext_get? fun key => h (.message key)
  obtain rfl : e = e' := OrderedMap.ext_get? fun key => h (.extension key)
  obtain rfl : config = config' := hconfig
  obtain rfl : overrides = overrides' := hoverrides
  rfl

/-- The same registrations in another order succeed too, and fill the tables alike. -/
theorem built_eq_of_perm {config : Config} {first second : List Registration}
    (hperm : first.Perm second)
    (h : ∀ outcome ∈ (buildAll (first.map .register) (empty config)).1, outcome = none) :
    (∀ outcome ∈ (buildAll (second.map .register) (empty config)).1, outcome = none) ∧
      built config (first.map .register) = built config (second.map .register) := by
  have hfree : ∀ t, (empty config).bound? t = none := fun t => by cases t <;> rfl
  have hempty : (empty config).Named := ⟨rfl, rfl, rfl⟩
  obtain ⟨hnodup, hadded⟩ := added_of_registerAll hempty (registerAll_of_buildAll h)
  have hsecond := buildAll_of_nodup (d := empty config) (fun r _ => hfree r.target)
    ((hperm.map _).nodup_iff.mp hnodup)
  obtain ⟨-, hadded'⟩ := added_of_registerAll hempty (registerAll_of_buildAll hsecond)
  refine ⟨hsecond, ?_⟩
  obtain ⟨hconfig, hholds⟩ := holds_built config (first.map .register)
  obtain ⟨hconfig', hholds'⟩ := holds_built config (second.map .register)
  apply eq_of_bound hholds.named hholds'.named (hconfig.trans hconfig'.symm)
  · exact (overrides_buildAll _ _).trans (overrides_buildAll _ _).symm
  · intro t
    rw [built, built, hadded, hadded', firstFor_eq_of_perm hperm hnodup]

theorem namesApart_built {config : Config} {rs : List Registration}
    (h : ∀ outcome ∈ (buildAll (rs.map .register) (empty config)).1, outcome = none)
    (hnames : ∀ {id id' : UInt8} {g g' : Grammar}, .message id g ∈ rs → .message id' g' ∈ rs →
      sameName g.name g'.name = true → id = id') :
    (built config (rs.map .register)).NamesApart := by
  have hmem : ∀ {id : UInt8} {g : Grammar},
      (built config (rs.map .register)).messages.get? id = some g → .message id g ∈ rs := by
    intro id g hg
    have hbound := (bound_registerAll (registerAll_of_buildAll h) (.message id g)).mp hg
    exact hbound.resolve_right fun hempty => by cases hempty
  intro id id' g g' hg hg'
  exact hnames (hmem hg) (hmem hg')

end Dissector

namespace Session

/-- Where no two messages have grammars of the same name, the order of storage does not show in a reply. -/
theorem answerStored_eq {d : Dissector} (hd : d.NamesApart) {o o' : StorageOrder} (ho : o.Of d)
    (ho' : o'.Of d) (s : Session) {request : Request} (hrequest : ∀ name, request ≠ .findVersion name) :
    answerStored o s request = answerStored o' s request := by
  cases request with
  | overrideByName id name =>
    simp only [answerStored, hd.findNamed_eq ho.messages ho'.messages]
  | findVersion name => exact absurd rfl (hrequest name)
  | findMessage name => simp only [answerStored, hd.findNamed_eq ho.messages ho'.messages]
  | _ => rfl

theorem answerAllStored_eq {d : Dissector} (hd : d.NamesApart) {o o' : StorageOrder} (ho : o.Of d)
    (ho' : o'.Of d) (s : Session) {requests : List Request}
    (hrequests : ∀ name, .findVersion name ∉ requests) :
    answerAllStored o s requests = answerAllStored o' s requests := by
  induction requests generalizing s with
  | nil => rfl
  | cons request more ih =>
    have hrequest : ∀ name, request ≠ .findVersion name := by
      rintro name rfl
      exact hrequests name List.mem_cons_self
    have hmore : ∀ name, .findVersion name ∉ more := fun name hname =>
      hrequests name (List.mem_cons_of_mem _ hname)
    simp only [answerAllStored, answerStored_eq hd ho ho' s hrequest]
    rw [ih _ hmore]

open Dissector (buildAll built empty)

/-- Dissectors built by the same registrations in different orders give the same replies to any sequence of
requests, in whatever orders their tables are stored. -/
theorem replies_of_perm (config : Config) {first second : List Registration}
    (hperm : first.Perm second)
    (hsucceeds : ∀ outcome ∈ (buildAll (first.map .register) (empty config)).1, outcome = none)
    (hnames : ∀ {id id' : UInt8} {g g' : Grammar}, .message id g ∈ first → .message id' g' ∈ first →
      sameName g.name g'.name = true → id = id')
    {requests : List Request} (hrequests : ∀ name, .findVersion name ∉ requests) :
    let d := built config (first.map .register)
    let d' := built config (second.map .register)
    (∀ outcome ∈ (buildAll (second.map .register) (empty config)).1, outcome = none) ∧
      ∀ o o' : StorageOrder, o.Of d → o'.Of d' →
        answerAllStored o ⟨d, []⟩ requests = answerAllStored o' ⟨d', []⟩ requests ∧
        answerAllStored o ⟨d, []⟩ requests = (answerAll ⟨d', []⟩ requests).1 := by
  intro d d'
  obtain ⟨hsecond, hbuilt⟩ := Dissector.built_eq_of_perm hperm hsucceeds
  have hd : d.NamesApart := Dissector.namesApart_built hsucceeds hnames
  have heq : d' = d := hbuilt.symm
  rw [heq]
  refine ⟨hsecond, fun o o' ho ho' => ⟨answerAllStored_eq hd ho ho' _ hrequests, ?_⟩⟩
  rw [answerAll_eq_byKey (d := d) rfl rfl]
  exact answerAllStored_eq hd ho (StorageOrder.of_byKey d) _ hrequests

def camGrammar : Grammar :=
  ⟨"CAM", "Awareness", .undecoded⟩

def denmGrammar : Grammar :=
  ⟨"DENM", "Notification", .undecoded⟩

/-- Two messages are registered one way and the other, and the second is searched where it is stored first. -/
theorem replies_of_perm_pair :
    let first : List Registration :=
      [.message 2 camGrammar, .version 1 denmGrammar, .message 1 denmGrammar]
    let second : List Registration :=
      [.message 1 denmGrammar, .message 2 camGrammar, .version 1 denmGrammar]
    let d := built {} (first.map .register)
    let d' := built {} (second.map .register)
    let o : StorageOrder := ⟨[denmGrammar], [camGrammar, denmGrammar]⟩
    let requests : List Request := [.overrideByName 7 "denm", .dispatch [1, 7], .keys]
    first.Perm second ∧ d.messages.grammars.values = [denmGrammar, camGrammar] ∧
      answerAllStored o ⟨d, []⟩ requests = (answerAll ⟨d', []⟩ requests).1 := by
  intro first second d d' o requests
  have hperm : first.Perm second := (List.Perm.swap _ _ _).cons _ |>.trans (.swap _ _ _)
  have hsucceeds : ∀ outcome ∈ (buildAll (first.map .register) (empty {})).1, outcome = none := by
    decide
  have hnames : ∀ {id id' : UInt8} {g g' : Grammar}, .message id g ∈ first → .message id' g' ∈ first →
      sameName g.name g'.name = true → id = id' := by
    intro id id' g g' hg hg' hsame
    simp only [first, List.mem_cons, Registration.message.injEq, reduceCtorEq, List.not_mem_nil,
      or_false, false_or] at hg hg'
    rcases hg with ⟨rfl, rfl⟩ | ⟨rfl, rfl⟩ <;> rcases hg' with ⟨rfl, rfl⟩ | ⟨rfl, rfl⟩
    · rfl
    · exact absurd hsame (by decide)
    · exact absurd hsame (by decide)
    · rfl
  have hrequests : ∀ name, .findVersion name ∉ requests := by simp [requests]
  have ho : o.Of d := ⟨.refl _, .swap _ _ _⟩
  have hanswers := (replies_of_perm {} hperm hsucceeds hnames hrequests).2 o (.byKey d') ho
    (StorageOrder.of_byKey d')
  exact ⟨hperm, rfl, hanswers.2⟩

end Session

end V2x
