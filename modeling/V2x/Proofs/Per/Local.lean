import V2x.Proofs.Per.Built

/-!
# What a read depends on

A read looks at the bits it takes and at the number of bits left, and at nothing else.
-/

namespace V2x.Per.Read

variable {α : Type}

theorem Built.local {read : Read α} (h : read.Built) (r : Reader) :
    ∃ k ≤ r.remaining, (read r).state = r.advance k ∧
      ∀ t : Reader, t.remaining = r.remaining → t.rest.take k = r.rest.take k →
        read t = .of (read r).outcome (t.advance k) := by
  induction h generalizing r with
  | pure a => exact ⟨0, Nat.zero_le _, rfl, fun t _ _ => rfl⟩
  | throw fault => exact ⟨0, Nat.zero_le _, rfl, fun t _ _ => rfl⟩
  | bits n =>
    rcases Nat.lt_or_ge r.remaining n with h | h
    · rw [bits_of_lt h]
      refine ⟨0, Nat.zero_le _, rfl, fun t ht _ => ?_⟩
      rw [bits_of_lt (ht ▸ h), ht]
      rfl
    · rw [bits_of_le h]
      refine ⟨n, h, rfl, fun t ht hbits => ?_⟩
      rw [bits_of_le (ht ▸ h), hbits]
      rfl
  | @bind α β read next _ _ ih ihnext =>
    obtain ⟨k, hk, hstate, hlocal⟩ := ih r
    cases hr : read r with
    | error fault r₁ =>
      rw [hr] at hstate hlocal
      obtain rfl : r₁ = r.advance k := hstate
      rw [EStateM.bind_of_error hr]
      refine ⟨k, hk, rfl, fun t ht hbits => ?_⟩
      rw [EStateM.bind_of_error (hlocal t ht hbits)]
      rfl
    | ok a r₁ =>
      rw [hr] at hstate hlocal
      obtain rfl : r₁ = r.advance k := hstate
      obtain ⟨m, hm, hstate', hlocal'⟩ := ihnext a (r.advance k)
      rw [Reader.remaining_advance] at hm
      rw [EStateM.bind_of_ok hr]
      refine ⟨k + m, by omega, by rw [hstate', Reader.advance_advance], fun t ht hbits => ?_⟩
      rw [List.take_add, List.take_add] at hbits
      have hlen : (t.rest.take k).length = (r.rest.take k).length := by
        rw [List.length_take, List.length_take, Reader.length_rest, Reader.length_rest, ht]
      obtain ⟨hfirst, hmore⟩ := List.append_inj hbits hlen
      have hremaining : (t.advance k).remaining = (r.advance k).remaining := by
        rw [Reader.remaining_advance, Reader.remaining_advance, ht]
      rw [← Reader.rest_advance, ← Reader.rest_advance] at hmore
      rw [EStateM.bind_of_ok (hlocal t ht hfirst), hlocal' _ hremaining hmore,
        Reader.advance_advance]

end V2x.Per.Read
