import V2x.Proofs.Session
import V2x.Shared

/-!
# Shared overrides are linearizable

However the steps of clients are interleaved, the updates that have come to their end could have been made
one after another, in the order in which they took their last steps (`Linearizable`). The reason is that
each of them takes effect in its last step: up to then a copy is either out of date, and will not be
published, or still equal to the published map (`Stage.Sound`).
-/

namespace V2x

theorem OrderedMap.erase_of_not_contains {κ α : Type} [Ranked κ] {m : OrderedMap κ α} {key : κ}
    (h : m.contains key = false) : m.erase key = m := by
  refine ext_get? fun k => ?_
  rw [get?_erase]
  split
  · next hk =>
    have hnone : m.get? key = none := by simpa [contains] using h
    rw [← rank_inj.mp hk, hnone]
  · rfl

namespace Shared

def requests (completed : List Completed) : List Request :=
  completed.map fun c => c.update.request

/-- Nothing but the map changes when a session answers an update. -/
theorem answer_request (s : Session) (u : Update) :
    s.answer u.request = (u.reply s.dissector.overrides,
      { s with dissector := { s.dissector with overrides := u.apply s.dissector.overrides } }) := by
  cases u <;> rfl

theorem Update.eq_override_of_writes {u : Update} {messages : Table UInt8} {id : UInt8}
    {grammar : Grammar} (h : u.request.writes messages id = some (some grammar)) :
    u = .override id grammar := by
  cases u with
  | override messageId g =>
    simp only [Update.request, Request.writes, Request.writesFound, Option.ite_none_right_eq_some, Option.some.injEq] at h
    rw [h.1, h.2]
  | clear messageId => simp [Update.request, Request.writes, Request.writesFound] at h
  | clearAll => simp [Update.request, Request.writes, Request.writesFound] at h

/-! ## Steps of an update -/

/-- A copy that is not out of date is the published map. -/
def Stage.Sound (s : Store) : Stage → Prop
  | .copy => True
  | .replace copied generation =>
    generation ≤ s.generation ∧ (generation = s.generation → copied = s.map)

/-- At most one map has been published between the two. -/
def Store.Next (before after : Store) : Prop :=
  after = before ∨ after.generation = before.generation + 1

theorem Stage.Sound.next {before after : Store} (h : before.Next after) {stage : Stage}
    (hs : stage.Sound before) : stage.Sound after := by
  cases stage with
  | copy => trivial
  | replace copied generation =>
    rcases h with rfl | h
    · exact hs
    · have := hs.1
      exact ⟨by omega, fun e => by omega⟩

/-- All that a step of an update can come to: the store stays as it is, or the update has been applied to
the published map and the client is told what it did to that one. -/
inductive Progress.Sound (u : Update) (s : Store) : Progress → Prop
  | underway {next : Stage} (h : next.Sound s) : Sound u s (.underway next)
  | ended {after : Store} (hnext : s.Next after) (hmap : after.map = u.apply s.map) :
    Sound u s (.ended (u.reply s.map) after)

theorem sound_copied (s : Store) : (Stage.replace s.map s.generation).Sound s :=
  ⟨Nat.le_refl _, fun _ => rfl⟩

theorem sound_start (u : Update) (s : Store) : (u.start s).Sound u s := by
  cases u with
  | override messageId grammar => exact .underway (sound_copied s)
  | clear messageId =>
    simp only [Update.start]
    by_cases h : s.map.contains messageId = true
    · rw [if_pos h]
      exact .underway trivial
    · rw [if_neg h]
      simp only [Bool.not_eq_true] at h
      have hreply : Reply.existed false = (Update.clear messageId).reply s.map := by
        simp [Update.reply, h]
      rw [hreply]
      exact .ended (.inl rfl) (OrderedMap.erase_of_not_contains h).symm
  | clearAll => exact .ended (.inr rfl) rfl

theorem sound_resume (u : Update) {s : Store} {next : Stage} (h : next.Sound s) :
    (u.resume s next).Sound u s := by
  cases next with
  | copy => exact .underway (sound_copied s)
  | replace copied generation =>
    simp only [Update.resume]
    by_cases hg : generation = s.generation
    · rw [if_pos hg, h.2 hg]
      exact .ended (.inr rfl) rfl
    · rw [if_neg hg]
      exact .underway trivial

/-! ## Steps of the system -/

/-- What holds after any steps, with the completed updates in the order of their last steps. -/
structure Consistent (d : Dissector) (programs : Nat → List Update) (s : System) : Prop where
  answers : Session.answerAll ⟨d, []⟩ (requests s.completed) =
    (s.completed.map Completed.reply, ⟨{ d with overrides := s.store.map }, []⟩)
  underway : ∀ {i update since next todo}, s.clients i = .within update since next todo →
    next.Sound s.store ∧ since < s.clock
  ended : ∀ c ∈ s.completed, c.first ≤ c.last ∧ c.last < s.clock
  ascending : s.completed.Pairwise fun a b => a.last < b.last
  programs : ∀ i, s.completedBy i ++ (s.clients i).pending = programs i

section

variable {d : Dissector} {programs : Nat → List Update}

theorem consistent_start : Consistent d programs (System.start d.overrides programs) where
  answers := rfl
  underway := by simp [System.start]
  ended := by simp [System.start]
  ascending := .nil
  programs i := rfl

theorem Consistent.settle {s : System} (h : Consistent d programs s) {i : Nat} {update : Update}
    {since : Nat} {todo : List Update} {progress : Progress}
    (hpending : (s.clients i).pending = update :: todo) (hsince : since ≤ s.clock)
    (hp : progress.Sound update s.store) :
    Consistent d programs (s.settle i update since todo progress) := by
  cases hp with
  | @underway next hnext =>
    constructor
    case answers => exact h.answers
    case ascending => exact h.ascending
    case ended =>
      intro c hc
      exact ⟨(h.ended c hc).1, Nat.lt_succ_of_lt (h.ended c hc).2⟩
    case underway =>
      intro j update' since' next' todo' hj
      simp only [System.settle] at hj ⊢
      by_cases hij : j = i
      · subst hij
        rw [Function.update_self] at hj
        cases hj
        exact ⟨hnext, Nat.lt_succ_of_le hsince⟩
      · rw [Function.update_of_ne hij] at hj
        exact ⟨(h.underway hj).1, Nat.lt_succ_of_lt (h.underway hj).2⟩
    case programs =>
      intro j
      rw [← h.programs j]
      simp only [System.settle, System.completedBy]
      by_cases hij : j = i
      · subst hij
        rw [Function.update_self, hpending, Client.pending]
      · rw [Function.update_of_ne hij]
  | @ended after hnext hmap =>
    constructor
    case answers =>
      simp only [System.settle, requests, List.map_append, List.map_cons, List.map_nil]
      rw [Session.answerAll_append]
      have hanswers := h.answers
      unfold requests at hanswers
      rw [hanswers]
      simp only [Session.answerAll, answer_request, hmap]
    case ascending =>
      refine List.pairwise_append.mpr ⟨h.ascending, List.pairwise_singleton _ _, fun a ha b hb => ?_⟩
      rw [List.mem_singleton.mp hb]
      exact (h.ended a ha).2
    case ended =>
      intro c hc
      rcases List.mem_append.mp hc with hc | hc
      · exact ⟨(h.ended c hc).1, Nat.lt_succ_of_lt (h.ended c hc).2⟩
      · rw [List.mem_singleton.mp hc]
        exact ⟨hsince, Nat.lt_succ_self _⟩
    case underway =>
      intro j update' since' next' todo' hj
      simp only [System.settle] at hj ⊢
      by_cases hij : j = i
      · subst hij
        rw [Function.update_self] at hj
        cases hj
      · rw [Function.update_of_ne hij] at hj
        exact ⟨(h.underway hj).1.next hnext, Nat.lt_succ_of_lt (h.underway hj).2⟩
    case programs =>
      intro j
      rw [← h.programs j]
      simp only [System.settle, System.completedBy, List.filter_append, List.map_append]
      by_cases hij : j = i
      · subst hij
        rw [hpending]
        simp [Client.pending]
      · simp [Function.update_of_ne hij, Ne.symm hij]

theorem Consistent.step {s : System} (h : Consistent d programs s) (i : Nat) :
    Consistent d programs (s.step i) := by
  unfold System.step
  split
  · exact h
  · next update todo hclient =>
    exact h.settle (by rw [hclient, Client.pending]) (Nat.le_refl _) (sound_start update s.store)
  · next update since next todo hclient =>
    have hunderway := h.underway hclient
    exact h.settle (by rw [hclient, Client.pending]) (Nat.le_of_lt hunderway.2)
      (sound_resume update hunderway.1)

theorem Consistent.run {s : System} (h : Consistent d programs s) (schedule : List Nat) :
    Consistent d programs (s.run schedule) := by
  induction schedule generalizing s with
  | nil => exact h
  | cons i schedule ih => exact ih (h.step i)

/-! ## Going on alone -/

/-- A step leads to the end of an update, to a copy or from a copy of the map published now. -/
def Progress.Near (s : Store) : Progress → Prop
  | .underway next => next = .copy ∨ next = .replace s.map s.generation
  | .ended _ _ => True

theorem near_start (u : Update) (s : Store) : (u.start s).Near s := by
  cases u with
  | override messageId grammar => exact .inr rfl
  | clear messageId =>
    simp only [Update.start]
    split
    · exact .inl rfl
    · trivial
  | clearAll => trivial

theorem near_resume (u : Update) (s : Store) (next : Stage) : (u.resume s next).Near s := by
  cases next with
  | copy => exact .inr rfl
  | replace copied generation =>
    simp only [Update.resume]
    split
    · trivial
    · exact .inl rfl

/-- Some step of client `i` on its own ends the update, within `limit` steps. -/
def EndsAlone (s : System) (i : Nat) (update : Update) (limit : Nat) : Prop :=
  ∃ n ≤ limit, ∃ c, (s.run (List.replicate n i)).completed = s.completed ++ [c] ∧
    c.client = i ∧ c.update = update

theorem EndsAlone.step {s : System} {i : Nat} {update : Update} {limit : Nat}
    (h : EndsAlone (s.step i) i update limit) (hcompleted : (s.step i).completed = s.completed) :
    EndsAlone s i update (limit + 1) := by
  obtain ⟨n, hn, c, hc⟩ := h
  rw [hcompleted] at hc
  exact ⟨n + 1, Nat.succ_le_succ hn, c, hc⟩

theorem EndsAlone.mono {s : System} {i : Nat} {update : Update} {limit more : Nat}
    (h : EndsAlone s i update limit) (hle : limit ≤ more) : EndsAlone s i update more := by
  obtain ⟨n, hn, hc⟩ := h
  exact ⟨n, Nat.le_trans hn hle, hc⟩

theorem endsAlone_of_current {s : System} {i : Nat} {update : Update} {since : Nat}
    {todo : List Update}
    (h : s.clients i = .within update since (.replace s.store.map s.store.generation) todo) :
    EndsAlone s i update 1 := by
  refine ⟨1, Nat.le_refl _, ?_⟩
  simp [System.run, System.step, h, Update.resume, System.settle]

theorem endsAlone_of_copy {s : System} {i : Nat} {update : Update} {since : Nat}
    {todo : List Update} (h : s.clients i = .within update since .copy todo) :
    EndsAlone s i update 2 := by
  have hstep : s.step i = s.settle i update since todo
      (.underway (.replace s.store.map s.store.generation)) := by
    simp [System.step, h, Update.resume]
  have hcurrent : (s.step i).clients i = .within update since
      (.replace (s.step i).store.map (s.step i).store.generation) todo := by
    simp [hstep, System.settle]
  exact (endsAlone_of_current hcurrent).step (by rw [hstep]; rfl)

/-- Nobody waits for anybody: three steps of a client while no other takes one end an update. -/
theorem endsAlone {s : System} {i : Nat} {update : Update} {todo : List Update}
    (h : (s.clients i).pending = update :: todo) : EndsAlone s i update 3 := by
  have hsettle : ∃ since progress, progress.Near s.store ∧
      s.step i = s.settle i update since todo progress := by
    cases hclient : s.clients i with
    | between program =>
      rw [hclient, Client.pending] at h
      exact ⟨s.clock, _, near_start update s.store, by simp [System.step, hclient, h]⟩
    | within update' since next todo' =>
      rw [hclient, Client.pending] at h
      cases h
      exact ⟨since, _, near_resume update s.store next, by simp [System.step, hclient]⟩
  obtain ⟨since, progress, hnear, hstep⟩ := hsettle
  cases progress with
  | ended reply after =>
    exact ⟨1, by decide, _, by simp only [List.replicate, System.run, List.foldl, hstep]; rfl, rfl, rfl⟩
  | underway next =>
    have hcompleted : (s.step i).completed = s.completed := by rw [hstep]; rfl
    rcases hnear with rfl | rfl
    · have hcopy : (s.step i).clients i = .within update since .copy todo := by
        simp [hstep, System.settle]
      exact (endsAlone_of_copy hcopy).step hcompleted
    · have hcurrent : (s.step i).clients i = .within update since
          (.replace (s.step i).store.map (s.step i).store.generation) todo := by
        simp [hstep, System.settle]
      exact ((endsAlone_of_current hcurrent).step hcompleted).mono (by decide)

/-! ## What clients can rely on -/

/-- The map holds what was written last. -/
theorem Consistent.get?_map {s : System} (h : Consistent d programs s) (id : UInt8) :
    s.store.map.get? id =
      lastWrite (Request.writes d.messages id) (d.overrides.get? id) (requests s.completed) := by
  obtain ⟨overrides, hdissector, hget⟩ := Session.dissector_answerAll ⟨d, []⟩ (requests s.completed)
  rw [h.answers] at hdissector
  rw [← hget]
  exact congrArg (fun d : Dissector => d.overrides.get? id) hdissector

/-- Each reply is about the map that the updates before it have left. -/
theorem Consistent.reply_eq {s : System} (h : Consistent d programs s) {before after : List Completed}
    {c : Completed} (hc : s.completed = before ++ c :: after) :
    c.reply = c.update.reply
      (Session.answerAll ⟨d, []⟩ (requests before)).2.dissector.overrides := by
  have hreplies := congrArg Prod.fst h.answers
  rw [hc, requests, List.map_append, List.map_append, Session.answerAll_append] at hreplies
  have hlength : (Session.answerAll ⟨d, []⟩ (before.map fun c => c.update.request)).1.length =
      (before.map Completed.reply).length := by simp [Session.length_answerAll]
  have hmore := (List.append_inj hreplies hlength).2
  simp only [List.map_cons, Session.answerAll, answer_request, List.cons.injEq] at hmore
  exact hmore.1.symm

theorem Consistent.split {s : System} (h : Consistent d programs s) {c : Completed}
    (hc : c ∈ s.completed) :
    ∃ before after, s.completed = before ++ c :: after ∧
      (∀ a ∈ before, a.last < c.last) ∧ ∀ b ∈ after, c.last < b.last := by
  obtain ⟨before, after, hsplit⟩ := List.append_of_mem hc
  have hascending := h.ascending
  rw [hsplit] at hascending
  obtain ⟨-, hafter, hbefore⟩ := List.pairwise_append.mp hascending
  exact ⟨before, after, hsplit, fun a ha => hbefore a ha c List.mem_cons_self,
    (List.pairwise_cons.mp hafter).1⟩

/-- Two completed updates, and those that took their last steps between theirs. -/
theorem Consistent.between {s : System} (h : Consistent d programs s) {a b : Completed}
    (ha : a ∈ s.completed) (hb : b ∈ s.completed) (hne : a ≠ b) (hle : a.last ≤ b.last) :
    ∃ before between after, s.completed = before ++ a :: (between ++ b :: after) ∧
      ∀ c ∈ between, a.last < c.last ∧ c.last < b.last := by
  obtain ⟨before, rest, hsplit, hbefore, hrest⟩ := h.split ha
  have hb' : b ∈ rest := by
    rw [hsplit] at hb
    rcases List.mem_append.mp hb with hb | hb
    · have := hbefore b hb
      omega
    · exact (List.mem_cons.mp hb).resolve_left (Ne.symm hne)
  obtain ⟨between, after, rfl⟩ := List.append_of_mem hb'
  have hascending := h.ascending
  rw [hsplit] at hascending
  have hpairs := (List.pairwise_cons.mp (List.pairwise_append.mp hascending).2.1).2
  refine ⟨before, between, after, hsplit, fun c hc => ⟨hrest c (by simp [hc]), ?_⟩⟩
  exact (List.pairwise_append.mp hpairs).2.2 c hc b List.mem_cons_self

end

/-- What clients that started with these programs can rely on. -/
structure Linearizable (d : Dissector) (programs : Nat → List Update) (s : System) : Prop where
  /-- A session that nobody else uses gives the same replies and ends with the same map, if it is asked for
  the completed updates in some order in which none stands before one that had ended when it began. -/
  explained : ∃ order, order.Perm s.completed ∧
    (order.Pairwise fun a b => ¬ b.last < a.first) ∧
    Session.answerAll ⟨d, []⟩ (requests order) =
      (order.map Completed.reply, ⟨{ d with overrides := s.store.map }, []⟩)
  /-- No update is left out: each client has completed the front part of its program. -/
  programs (i : Nat) : s.completedBy i ++ (s.clients i).pending = programs i
  /-- What an update has written for an identifier stands, unless one that is about the identifier too had
  not ended when it began. -/
  kept (c : Completed) (hc : c ∈ s.completed) (id : UInt8) (written : Option Grammar)
    (hwrites : c.update.request.writes d.messages id = some written)
    (hothers : ∀ other ∈ s.completed, other ≠ c →
      (other.update.request.writes d.messages id).isSome → other.last < c.first) :
    s.store.map.get? id = written
  /-- Of two updates that clear an override, the second finds only one that was set after the first. -/
  cleared (a b : Completed) (ha : a ∈ s.completed) (hb : b ∈ s.completed) (hne : a ≠ b)
    (hle : a.last ≤ b.last) (id : UInt8) (hclear : a.update = .clear id) (hclear' : b.update = .clear id)
    (hexisted : b.reply = .existed true) :
    ∃ c ∈ s.completed, ∃ grammar, c.update = .override id grammar ∧
      a.last < c.last ∧ c.last < b.last

theorem Consistent.linearizable {d : Dissector} {programs : Nat → List Update} {s : System}
    (h : Consistent d programs s) : Linearizable d programs s := by
  constructor
  case explained =>
    refine ⟨s.completed, .refl _, h.ascending.imp_of_mem fun {a b} ha _ hab => ?_, h.answers⟩
    have := h.ended a ha
    omega
  case programs => exact h.programs
  case kept =>
    intro c hc id written hwrites hothers
    obtain ⟨before, after, hsplit, -, hafter⟩ := h.split hc
    have hnone : ∀ request ∈ requests after, request.writes d.messages id = none := by
      intro request hr
      obtain ⟨other, hother, rfl⟩ := List.mem_map.mp hr
      have hlater := hafter other hother
      have hended := h.ended c hc
      have hmem : other ∈ s.completed := by simp [hsplit, hother]
      have hne : other ≠ c := by
        rintro rfl
        exact absurd hlater (Nat.lt_irrefl _)
      cases hw : other.update.request.writes d.messages id with
      | none => rfl
      | some value =>
        have := hothers other hmem hne (by simp [hw])
        omega
    rw [h.get?_map, hsplit, requests, List.map_append, List.map_cons, lastWrite_append,
      lastWrite_cons, hwrites, Option.getD_some]
    exact lastWrite_of_none _ hnone
  case cleared =>
    intro a b ha hb hne hle id hclear hclear' hexisted
    obtain ⟨before, between, after, hsplit, hbetween⟩ := h.between ha hb hne hle
    have hfront : s.completed = (before ++ a :: between) ++ b :: after := by simp [hsplit]
    have hreply := h.reply_eq hfront
    obtain ⟨overrides, hdissector, hget⟩ :=
      Session.dissector_answerAll ⟨d, []⟩ (requests (before ++ a :: between))
    rw [hexisted, hclear', hdissector] at hreply
    have hcontains : (overrides.get? id).isSome = true := (Reply.existed.inj hreply).symm
    have hwrites : a.update.request.writes d.messages id = some none := by
      simp [hclear, Update.request, Request.writes, Request.writesFound]
    -- `a` has left no override, so that one between it and `b` has
    rw [hget, requests, List.map_append, List.map_cons, lastWrite_append, lastWrite_cons, hwrites,
      Option.getD_some] at hcontains
    obtain ⟨grammar, hgrammar⟩ := Option.isSome_iff_exists.mp hcontains
    obtain ⟨request, hrequest, hwritten⟩ := exists_of_lastWrite hgrammar
    obtain ⟨c, hc, rfl⟩ := List.mem_map.mp hrequest
    exact ⟨c, by simp [hsplit, hc], grammar, Update.eq_override_of_writes hwritten, hbetween c hc⟩

/-- However steps are interleaved, and whatever clients had set out to do. -/
theorem linearizable_run (d : Dissector) (programs : Nat → List Update) (schedule : List Nat) :
    Linearizable d programs ((System.start d.overrides programs).run schedule) :=
  (consistent_start.run schedule).linearizable

/-- Two clients clear an override, and both have seen it, while another client sets one. -/
theorem linearizable_run_contended :
    let seven : Grammar := ⟨"seven", "Seven", .marker "octets"⟩
    let d := (Dissector.empty {}).override 7 seven
    let programs : Nat → List Update := fun i => if i = 0 then [.override 1 seven] else [.clear 7]
    let s := (System.start d.overrides programs).run [0, 1, 2, 1, 2, 1, 0, 2, 0, 0, 2, 2]
    s.completed = [⟨1, .clear 7, .existed true, 1, 5⟩, ⟨0, .override 1 seven, .done, 0, 9⟩,
        ⟨2, .clear 7, .existed false, 2, 11⟩] ∧
      s.store.map.get? 1 = some seven := by
  intro seven d programs s
  have hcompleted : s.completed = [⟨1, .clear 7, .existed true, 1, 5⟩,
      ⟨0, .override 1 seven, .done, 0, 9⟩, ⟨2, .clear 7, .existed false, 2, 11⟩] := by
    simp [s, d, programs, System.run, System.start, System.step, System.settle, Update.start,
      Update.resume, Update.reply, Update.apply, Store.publish, Dissector.override, Dissector.empty,
      OrderedMap.contains, OrderedMap.get?_insert, OrderedMap.get?_erase, rank_inj]
  have hrun : Linearizable d programs s := linearizable_run d programs _
  clear_value s
  refine ⟨hcompleted, hrun.kept ⟨0, .override 1 seven, .done, 0, 9⟩ ?_ 1 (some seven) rfl ?_⟩
  · simp [hcompleted]
  · -- the updates of the other clients are about another identifier
    intro other hother hne hwrites
    simp only [hcompleted, List.mem_cons, List.not_mem_nil, or_false] at hother
    rcases hother with rfl | rfl | rfl
    · simp [Update.request, Request.writes, Request.writesFound] at hwrites
    · exact absurd rfl hne
    · simp [Update.request, Request.writes, Request.writesFound] at hwrites

end Shared

end V2x
