import V2x.Proofs.Per.RoundTrip

/-!
# Open types of any length

A length determinant has room for fourteen bits, and a length that needs more loses its high ones. What is
read of a written open type is therefore a front of it, and the whole only if it was short enough
(`openType_written`).
-/

namespace V2x.Per

namespace Read

theorem finds_length_mod (field : String) (n : Nat) :
    (length field).Finds (Encoding.length n) (n % 16384) := by
  by_cases h : n < 128
  · rw [Nat.mod_eq_of_lt (by omega)]
    exact finds_length field (by omega)
  · rw [Encoding.length, if_neg h]
    exact (finds_flag true).bind ((finds_flag false).bind (finds_number_mod 14 n))

/-- A front of the octets is found, and those after it are left to be read. -/
theorem finds_openType_front (field : String) (data : Octets) :
    (openType field).Finds
      (Encoding.length data.length ++ Encoding.octets (data.take (data.length % 16384)))
      (data.take (data.length % 16384)) := by
  have hfront := finds_octets (data.take (data.length % 16384))
  rw [List.length_take, Nat.min_eq_left (Nat.mod_le _ _)] at hfront
  exact (finds_length_mod field data.length).bind hfront

end Read

namespace WriteStep

/-- The reader that comes to what is written after the steps `before`. -/
def readerAt (before more : List WriteStep) : Reader :=
  (Reader.ofOctets (write (before ++ more))).advance
    (before.foldl (fun (w : Writer) (step : WriteStep) => step.run w) {}).length

theorem rest_readerAt (before more : List WriteStep) :
    ∃ n < 8, (readerAt before more).rest = encodings more ++ List.replicate n false := by
  obtain ⟨n, hn, hbits⟩ := ofOctets_write (before ++ more)
  have hlength := (holds_foldl Writer.holds_empty before).length_eq
  refine ⟨n, hn, ?_⟩
  rw [readerAt, Reader.rest_advance, Reader.rest_ofOctets, hbits, encodings_append, hlength,
    List.nil_append, List.append_assoc, List.drop_left]

theorem openType_readerAt (field : String) (before : List WriteStep) (data : Octets)
    (after : List WriteStep) :
    let r := readerAt before (.openType data :: after)
    Read.openType field r = .ok (data.take (data.length % 16384))
      (r.advance ((Encoding.length data.length).length + 8 * (data.length % 16384))) := by
  intro r
  obtain ⟨n, -, hrest⟩ := rest_readerAt before (.openType data :: after)
  have hsplit : Encoding.octets data = Encoding.octets (data.take (data.length % 16384)) ++
      Encoding.octets (data.drop (data.length % 16384)) := by
    unfold Encoding.octets
    rw [← Bits.ofOctets_append, List.take_append_drop]
  rw [encodings_cons, encoding, Encoding.openType, hsplit, List.append_assoc, List.append_assoc,
    List.append_assoc, ← List.append_assoc] at hrest
  have hread := Read.finds_openType_front field data r _ hrest
  rw [hread, List.length_append, Encoding.octets, Bits.length_ofOctets, List.length_take,
    Nat.min_eq_left (Nat.mod_le _ _)]

/-- Of an open type, written after any steps and so at any place in an octet, its front is read whose length
is told by the fourteen bits that are left of it: without an error, and the whole only of less than 16384
octets. -/
theorem openType_written (field : String) (before : List WriteStep) (data : Octets)
    (after : List WriteStep) :
    let r := readerAt before (.openType data :: after)
    Read.openType field r = .ok (data.take (data.length % 16384))
        (r.advance ((Encoding.length data.length).length + 8 * (data.length % 16384))) ∧
      (Read.openType field r = .ok data (r.advance (Encoding.openType data).length) ↔
        data.length < 16384) := by
  intro r
  have hread := openType_readerAt field before data after
  refine ⟨hread, ?_⟩
  rw [hread]
  constructor
  · intro h
    have htake := (EStateM.Result.ok.inj h).1
    have hlength := congrArg List.length htake
    rw [List.length_take] at hlength
    omega
  · intro h
    rw [Nat.mod_eq_of_lt h, List.take_length, Encoding.openType, List.length_append, Encoding.octets,
      Bits.length_ofOctets]

/-- The writer takes an open type of 16384 octets, and nothing is read of it. -/
theorem not_read_of_long :
    ¬ ∀ (field : String) (before : List WriteStep) (data : Octets),
      let r := readerAt before [.openType data]
      Read.openType field r = .ok data (r.advance (Encoding.openType data).length) ∨
        ∃ fault r', Read.openType field r = .error fault r' := by
  intro h
  have hlength : (List.replicate 16384 (0x55 : UInt8)).length = 16384 := List.length_replicate
  have hread := openType_readerAt "value" [] (List.replicate 16384 0x55) []
  rcases h "value" [] (List.replicate 16384 0x55) with hok | ⟨fault, r', herror⟩
  · dsimp only at hread hok
    rw [hread, hlength] at hok
    have htake := congrArg List.length (EStateM.Result.ok.inj hok).1
    rw [List.length_take, hlength] at htake
    omega
  · dsimp only at hread herror
    rw [hread] at herror
    cases herror

end WriteStep

end V2x.Per
