import V2x.Proofs.Per.Reading
import V2x.Proofs.Per.Taken

/-!
# Runs of reads

A reader serves one read after another, also after reads that have failed. Each goes on from where the one
before it has stopped, says just how many bits are left if it finds some missing, and comes to the same value
wherever the bits it takes stand again (`orderly_runAll`). Reading eight bits time after time gives the octets
that stand there (`runAll_octets`).
-/

namespace V2x

theorem Bits.toNat_toOctet {bits : List Bool} (h : bits.length = 8) :
    (toOctet bits).toNat = toNat bits := by
  have hlt : toNat bits < 2 ^ 8 := h ▸ toNat_lt bits
  rw [toOctet, h, Nat.sub_self, Nat.pow_zero, Nat.mul_one, UInt8.toNat_ofNat_of_lt' hlt]

namespace Per

namespace Read

variable {α β : Type}

/-! ## What a value depends on -/

/-- The bits that have been taken are all that the value depends on. -/
theorem Built.finds_of_ok {read : Read α} (h : read.Built) {r r' : Reader} {a : α}
    (hr : read r = .ok a r') :
    ∃ k ≤ r.remaining, r' = r.advance k ∧ read.Finds (r.rest.take k) a := by
  induction h generalizing r r' with
  | pure b =>
    cases hr
    exact ⟨0, Nat.zero_le _, rfl, finds_pure _⟩
  | throw fault => cases hr
  | bits n =>
    rcases Nat.lt_or_ge r.remaining n with hlt | hle
    · rw [bits_of_lt hlt] at hr
      cases hr
    · rw [bits_of_le hle] at hr
      cases hr
      have hfinds := finds_bits (r.rest.take n)
      rw [List.length_take, Reader.length_rest, Nat.min_eq_left hle] at hfinds
      exact ⟨n, hle, rfl, hfinds⟩
  | bind _ _ ih ihnext =>
    obtain ⟨b, t, hread, hnext⟩ := EStateM.exists_of_bind_ok hr
    obtain ⟨k, hk, rfl, hfirst⟩ := ih hread
    obtain ⟨m, hm, rfl, hmore⟩ := ihnext b hnext
    rw [Reader.remaining_advance] at hm
    rw [Reader.rest_advance] at hmore
    refine ⟨k + m, by omega, Reader.advance_advance r k m, ?_⟩
    rw [List.take_add]
    exact hfirst.bind hmore

/-! ## What a fault says -/

/-- A read that finds bits missing stops where they are missing. -/
def Precise (read : Read α) : Prop :=
  ∀ (r r' : Reader) (needed available : Nat), read r = .error (.incomplete needed available) r' →
    available = r'.remaining ∧ available < needed

theorem Built.precise {read : Read α} (h : read.Built) : read.Precise := by
  intro r r' needed available hr
  induction h generalizing r with
  | pure b => cases hr
  | throw fault h =>
    cases hr
    exact absurd rfl (h needed available)
  | bits n =>
    rcases Nat.lt_or_ge r.remaining n with hlt | hle
    · rw [bits_of_lt hlt] at hr
      cases hr
      exact ⟨rfl, hlt⟩
    · rw [bits_of_le hle] at hr
      cases hr
  | @bind α β read next _ _ ih ihnext =>
    cases hread : read r with
    | error fault t =>
      rw [EStateM.bind_of_error hread] at hr
      cases hr
      exact ih _ hread
    | ok a t =>
      rw [EStateM.bind_of_ok hread] at hr
      exact ihnext a _ hr

/-- A read that fails has taken nothing. -/
def AllOrNothing (read : Read α) : Prop :=
  ∀ (r r' : Reader) (fault : Fault), read r = .error fault r' → r' = r

theorem allOrNothing_bits (n : Nat) : (bits n).AllOrNothing := by
  intro r r' fault h
  rcases Nat.lt_or_ge r.remaining n with hlt | hle
  · rw [bits_of_lt hlt] at h
    cases h
    rfl
  · rw [bits_of_le hle] at h
    cases h

theorem AllOrNothing.map {read : Read α} (h : read.AllOrNothing) (f : α → β) :
    (do return f (← read) : Read β).AllOrNothing := by
  intro r r' fault hr
  cases hread : read r with
  | error fault' t =>
    rw [EStateM.bind_of_error hread] at hr
    cases hr
    exact h _ _ _ hread
  | ok a t =>
    rw [EStateM.bind_of_ok hread] at hr
    cases hr

theorem allOrNothing_octets (count : Nat) : (octets count).AllOrNothing := by
  rw [octets_eq]
  exact (allOrNothing_bits _).map _

end Read

/-! ## One step -/

namespace ReadStep

/-- The bits are taken at once, or none of them. -/
def atOnce : ReadStep → Bool
  | .bits _ | .flag | .presence _ | .constrained _ _ | .size _ _ | .octets _ => true
  | _ => false

theorem allOrNothing_run {step : ReadStep} (h : step.atOnce = true) : step.run.AllOrNothing := by
  have hnumber (width : Nat) : (Read.number width).AllOrNothing := (Read.allOrNothing_bits _).map _
  have hconstrained (lower upper : Int) : (Read.constrained lower upper).AllOrNothing :=
    (hnumber _).map fun offset : Nat => (lower + (offset : Int)).bmod (2 ^ 64)
  cases step with
  | bits n => exact (hnumber n).map _
  | flag => exact ((Read.allOrNothing_bits 1).map fun bits => bits.headD false).map _
  | presence n => exact (Read.allOrNothing_bits n).map _
  | constrained lower upper => exact (hconstrained lower upper).map _
  | size lower upper =>
    exact ((hconstrained lower upper).map fun n : Int => (n % 2 ^ 64).toNat).map _
  | octets count => exact (Read.allOrNothing_octets count).map _
  | _ => cases h

theorem rest_run (r : Reader) :
    ReadStep.rest.run r = .ok (.octets (Bits.toOctets r.rest)) (r.advance r.remaining) :=
  EStateM.bind_of_ok (Read.rest_eq r) _

theorem precise_run (step : ReadStep) : step.run.Precise := by
  by_cases h : step = .rest
  · intro r r' needed available hr
    rw [h, rest_run] at hr
    cases hr
  · exact (Read.built_step h).precise

/-- What a step comes to that starts from `r`. -/
def outcome (step : ReadStep) (r : Reader) : Outcome :=
  ⟨(step.run r).outcome, (step.run r).state⟩

theorem runAll_cons (step : ReadStep) (more : List ReadStep) (r : Reader) :
    runAll (step :: more) r = step.outcome r :: runAll more (step.outcome r).reader := by
  rw [runAll, outcome]
  cases step.run r <;> rfl

/-- What a step may come to from the reader `r`: it goes on by bits that are there, a fault about missing bits
tells how many are left where it has stopped, and a value is what the bits that were taken come to anywhere. -/
structure Orderly (step : ReadStep) (r : Reader) (o : Outcome) : Prop where
  data_eq : o.reader.data = r.data
  le : r.position ≤ o.reader.position
  inside : o.reader.position ≤ 8 * o.reader.data.size
  missing : ∀ needed available, o.result = .error (.incomplete needed available) →
    available = o.reader.remaining ∧ available < needed
  unmoved : step.atOnce = true → ∀ fault, o.result = .error fault → o.reader = r
  elsewhere : step ≠ .rest → ∀ reading, o.result = .ok reading → ∀ t : Reader,
    r.rest.take (o.reader.position - r.position) <+: t.rest →
      step.run t = .ok reading (t.advance (o.reader.position - r.position))

theorem orderly_outcome (step : ReadStep) {r : Reader} (hr : r.position ≤ 8 * r.data.size) :
    step.Orderly r (step.outcome r) := by
  have hrun {result : Except Fault Reading} (ho : (step.outcome r).result = result) :
      step.run r = .of result (step.outcome r).reader := by
    rw [← ho]
    exact (step.run r).eq_of
  obtain ⟨k, hk, hstate⟩ := Read.forward_step step r
  have hinside : r.position + k ≤ 8 * r.data.size := by
    rw [Reader.remaining] at hk
    omega
  refine ⟨?_, ?_, ?_, fun needed available ho => ?_, fun honce fault ho => ?_,
    fun hrest reading ho t ht => ?_⟩
  · rw [outcome, hstate]
    rfl
  · rw [outcome, hstate]
    exact Nat.le_add_right _ _
  · rw [outcome, hstate]
    exact hinside
  · exact step.precise_run _ _ _ _ (hrun ho)
  · exact allOrNothing_run honce _ _ _ (hrun ho)
  · obtain ⟨m, hm, hadvance, hfinds⟩ := (Read.built_step hrest).finds_of_ok (hrun ho)
    have htaken : (step.outcome r).reader.position - r.position = m := by
      rw [hadvance, Reader.position_advance, Nat.add_sub_cancel_left]
    rw [htaken] at ht ⊢
    obtain ⟨tail, htail⟩ := ht
    have hread := hfinds t tail htail.symm
    rwa [List.length_take, Reader.length_rest, Nat.min_eq_left hm] at hread

/-! ## Any number of steps -/

/-- Each step is orderly from where the one before it has stopped. -/
inductive OrderlyRun : Reader → List ReadStep → List Outcome → Prop
  | nil (r : Reader) : OrderlyRun r [] []
  | cons {r : Reader} {step : ReadStep} {o : Outcome} {steps : List ReadStep}
      {outcomes : List Outcome} :
      step.Orderly r o → OrderlyRun o.reader steps outcomes →
        OrderlyRun r (step :: steps) (o :: outcomes)

theorem orderlyRun_runAll (steps : List ReadStep) {r : Reader}
    (hr : r.position ≤ 8 * r.data.size) : OrderlyRun r steps (runAll steps r) := by
  induction steps generalizing r with
  | nil => exact .nil r
  | cons step more ih =>
    rw [runAll_cons]
    have hstep := step.orderly_outcome hr
    exact .cons hstep (ih hstep.inside)

/-- The positions go up and not beyond the end. -/
theorem OrderlyRun.positions {r : Reader} {steps : List ReadStep} {outcomes : List Outcome}
    (h : OrderlyRun r steps outcomes) :
    ((r :: outcomes.map Outcome.reader).map Reader.position).Pairwise (· ≤ ·) ∧
      ∀ o ∈ outcomes, o.reader.data = r.data ∧ o.reader.position ≤ 8 * r.data.size := by
  induction h with
  | nil r => exact ⟨List.pairwise_singleton _ _, nofun⟩
  | @cons r step o steps outcomes hstep _ ih =>
    obtain ⟨hascending, hwithin⟩ := ih
    rw [hstep.data_eq] at hwithin
    have hinside := hstep.inside
    rw [hstep.data_eq] at hinside
    refine ⟨?_, ?_⟩
    · rw [List.map_cons, List.pairwise_cons]
      refine ⟨fun p hp => ?_, hascending⟩
      rw [List.map_cons, List.map_cons] at hp
      rw [List.map_cons, List.pairwise_cons] at hascending
      rcases List.mem_cons.mp hp with rfl | hmore
      · exact hstep.le
      · exact Nat.le_trans hstep.le (hascending.1 p hmore)
    · intro o' ho'
      rcases List.mem_cons.mp ho' with rfl | hmore
      · exact ⟨hstep.data_eq, hinside⟩
      · exact hwithin o' hmore

/-- Whatever is read of the data, each step is orderly, be the ones before it failures or not. -/
theorem orderly_runAll (data : Octets) (steps : List ReadStep) :
    let start := Reader.ofOctets data
    let outcomes := runAll steps start
    OrderlyRun start steps outcomes ∧
      ((start :: outcomes.map Outcome.reader).map Reader.position).Pairwise (· ≤ ·) ∧
      ∀ o ∈ outcomes, o.reader.data = start.data ∧ o.reader.position ≤ 8 * data.length := by
  intro start outcomes
  have hstart : start.position ≤ 8 * start.data.size := Nat.zero_le _
  have hrun := orderlyRun_runAll steps hstart
  have hsize : start.data.size = data.length := List.size_toArray
  obtain ⟨hascending, hwithin⟩ := hrun.positions
  rw [hsize] at hwithin
  exact ⟨hrun, hascending, hwithin⟩

/-! ## Octets one by one -/

theorem outcome_octet {r : Reader} (h : 8 ≤ r.remaining) :
    (ReadStep.bits 8).outcome r =
      ⟨.ok (.number (Bits.toOctet (r.rest.take 8)).toNat), r.advance 8⟩ := by
  have hlen : (r.rest.take 8).length = 8 := by
    rw [List.length_take, Reader.length_rest]
    omega
  have hrun : (ReadStep.bits 8).run r =
      .ok (.number (Bits.toNat (r.rest.take 8))) (r.advance 8) :=
    EStateM.bind_of_ok (Read.number_of_le h) _
  rw [outcome, hrun, Bits.toNat_toOctet hlen]
  rfl

theorem runAll_octets {count : Nat} {r : Reader} (h : 8 * count ≤ r.remaining) :
    runAll (List.replicate count (.bits 8)) r =
      (Bits.toOctets (r.rest.take (8 * count))).mapIdx fun i octet =>
        ⟨.ok (.number octet.toNat), r.advance (8 * (i + 1))⟩ := by
  induction count generalizing r with
  | zero => rfl
  | succ count ih =>
    have hlen : (r.rest.take 8).length = 8 := by
      rw [List.length_take, Reader.length_rest]
      omega
    have hmore := ih (r := r.advance 8) (by rw [Reader.remaining_advance]; omega)
    rw [List.replicate_succ, runAll_cons, outcome_octet (by omega), hmore, Reader.rest_advance,
      show 8 * (count + 1) = 8 + 8 * count by omega, List.take_add,
      Bits.toOctets_append_eight hlen, List.mapIdx_cons]
    refine congrArg _ (List.mapIdx_eq_mapIdx_iff.mpr fun i hi => ?_)
    rw [Reader.advance_advance, show 8 + 8 * (i + 1) = 8 * (i + 1 + 1) by omega]

end ReadStep

end Per

end V2x
