import V2x.Per.Step
import V2x.Proofs.Per.Local

/-!
# How many bits a read takes

No read gives bits back or takes more than are left. A length determinant takes an octet at least, so that
an open type takes more than its own octets.
-/

namespace V2x.Per.Read

variable {α β : Type}

/-- The read goes on by bits that are left, whether or not it comes to a value. -/
def Forward (read : Read α) : Prop :=
  ∀ r : Reader, ∃ k ≤ r.remaining, (read r).state = r.advance k

theorem Built.forward {read : Read α} (h : read.Built) : read.Forward := by
  intro r
  obtain ⟨k, hk, hstate, -⟩ := h.local r
  exact ⟨k, hk, hstate⟩

theorem forward_rest : rest.Forward := by
  intro r
  rw [rest_eq]
  exact ⟨r.remaining, Nat.le_refl _, rfl⟩

theorem Forward.map {read : Read α} (h : read.Forward) (f : α → β) :
    (do return f (← read) : Read β).Forward := by
  intro r
  obtain ⟨k, hk, hstate⟩ := h r
  refine ⟨k, hk, ?_⟩
  rw [← hstate, EStateM.bind_eq]
  cases read r <;> rfl

theorem Forward.remaining_le {read : Read α} (h : read.Forward) (r : Reader) :
    (read r).state.remaining ≤ r.remaining := by
  obtain ⟨k, -, hstate⟩ := h r
  rw [hstate, Reader.remaining_advance]
  exact Nat.sub_le _ _

theorem built_step {step : ReadStep} (h : step ≠ .rest) : step.run.Built := by
  cases step with
  | rest => exact absurd rfl h
  | bits n => exact (Built.number n).map _
  | flag => exact Built.flag.map _
  | presence n => exact (Built.bits n).map _
  | constrained lower upper => exact (Built.constrained lower upper).map _
  | extensibleInteger field lower upper =>
    exact (Built.extensibleInteger field lower upper).map _
  | index roots extensible => exact (Built.index roots extensible).map _
  | normallySmall => exact Built.normallySmall.map _
  | length field => exact (Built.length field).map _
  | size lower upper => exact (Built.size lower upper).map _
  | octets count => exact (Built.octets count).map _
  | openType field => exact (Built.openType field).map _
  | additions => exact Built.additions.map _

theorem forward_step (step : ReadStep) : step.run.Forward := by
  by_cases h : step = .rest
  · rw [h]
    exact forward_rest.map _
  · exact (built_step h).forward

/-- A read that comes to a value has taken `n` bits or more. -/
def Takes (n : Nat) (read : Read α) : Prop :=
  ∀ (r r' : Reader) (a : α), read r = .ok a r' → r'.remaining + n ≤ r.remaining

theorem Takes.bind {m n : Nat} {read : Read α} {next : α → Read β} (h : read.Takes m)
    (hnext : ∀ a, (next a).Takes n) : (read >>= next).Takes (m + n) := by
  intro r r' b hb
  obtain ⟨a, r₁, hread, hmore⟩ := EStateM.exists_of_bind_ok hb
  have h₁ := h _ _ _ hread
  have h₂ := hnext a _ _ _ hmore
  omega

theorem takes_throw (n : Nat) (fault : Fault) : (throw fault : Read α).Takes n := by
  intro r r' a h
  cases h

theorem takes_bits (n : Nat) : (bits n).Takes n := by
  intro r r' a h
  rcases Nat.lt_or_ge r.remaining n with hn | hn
  · rw [bits_of_lt hn] at h
    cases h
  · rw [bits_of_le hn] at h
    cases h
    rw [Reader.remaining_advance]
    omega

theorem Takes.map {n : Nat} {read : Read α} (h : read.Takes n) (f : α → β) :
    (do return f (← read) : Read β).Takes n :=
  h.bind (n := 0) fun _ _ _ _ hb => by cases hb; exact Nat.le_refl _

theorem takes_number (width : Nat) : (number width).Takes width :=
  (takes_bits width).map _

theorem takes_flag : flag.Takes 1 :=
  (takes_bits 1).map _

theorem takes_length (field : String) : (length field).Takes 8 := by
  refine takes_flag.bind (n := 7) fun b => ?_
  cases b with
  | false => exact takes_number 7
  | true =>
    refine takes_flag.bind (n := 6) fun b => ?_
    cases b with
    | true => exact takes_throw _ _
    | false =>
      intro r r' a h
      have := takes_number 14 _ _ _ h
      omega

theorem octets_ok {count : Nat} {data : Octets} {r r' : Reader}
    (h : octets count r = .ok data r') :
    data.length = count ∧ r'.remaining + 8 * count = r.remaining := by
  rw [octets_eq] at h
  rcases Nat.lt_or_ge r.remaining (8 * count) with hn | hn
  · rw [EStateM.bind_of_error (bits_of_lt hn)] at h
    cases h
  · rw [EStateM.bind_of_ok (bits_of_le hn)] at h
    cases h
    rw [Bits.length_toOctets, List.length_take, Reader.length_rest, Reader.remaining_advance]
    omega

/-- The payload of an open type is shorter than what the reader had before it. -/
theorem openType_ok {field : String} {payload : Octets} {r r' : Reader}
    (h : openType field r = .ok payload r') :
    r'.remaining + 8 * payload.length + 8 ≤ r.remaining := by
  obtain ⟨count, r₁, hread, hdata⟩ := EStateM.exists_of_bind_ok h
  have hlength := takes_length field _ _ _ hread
  have hoctets := octets_ok hdata
  omega

end V2x.Per.Read
