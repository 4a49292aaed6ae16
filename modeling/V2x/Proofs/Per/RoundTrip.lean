import V2x.Proofs.Per.Reading
import V2x.Proofs.Per.Writing

/-!
# Reading what has been written

Whatever is written, one write after another, the reads of the same kinds give back, and after each of
them the reader has come just as far as the writer had (`runAll_counterparts`). Writes and reads may
begin at any bit of an octet: what a write appends depends on nothing written before it, and what a
read finds on nothing that follows.
-/

namespace V2x.Per

namespace WriteStep

/-- Arguments that the write puts down in full. -/
def Admissible : WriteStep → Prop
  | .bits value width => width ≤ 64 ∧ value < 2 ^ width
  | .constrained value lower upper => Read.Bounds lower upper ∧ lower ≤ value ∧ value ≤ upper
  | .index value roots _ => value < roots
  | .length n => n < 16384
  | .openType data => data.length < 16384
  | .flag _ | .octets _ => True

instance : DecidablePred Admissible
  | .bits _ _ => inferInstanceAs (Decidable (_ ∧ _))
  | .constrained _ _ _ => inferInstanceAs (Decidable (_ ∧ _ ∧ _))
  | .index _ _ _ => inferInstanceAs (Decidable (_ < _))
  | .length _ => inferInstanceAs (Decidable (_ < _))
  | .openType _ => inferInstanceAs (Decidable (_ < _))
  | .flag _ | .octets _ => inferInstanceAs (Decidable True)

/-- The read of the same kind. What it reads is called `field` in faults. -/
def counterpart (field : String) : WriteStep → ReadStep
  | .bits _ width => .bits width
  | .flag _ => .flag
  | .constrained _ lower upper => .constrained lower upper
  | .index _ roots extensible => .index roots extensible
  | .length _ => .length field
  | .octets data => .octets data.length
  | .openType _ => .openType field

def written : WriteStep → Reading
  | .bits value _ => .number value
  | .flag b => .flag b
  | .constrained value _ _ => .number value
  | .index value _ _ => .number value
  | .length n => .count n
  | .octets data => .octets data
  | .openType data => .octets data

theorem Admissible.finds (field : String) {step : WriteStep} (h : step.Admissible) :
    (step.counterpart field).run.Finds step.encoding step.written := by
  cases step with
  | bits value width => exact (Read.finds_number h.2).map fun n => Reading.number (n : Int)
  | flag b => exact (Read.finds_flag b).map Reading.flag
  | constrained value lower upper =>
    exact (Read.finds_constrained h.1 h.2.1 h.2.2).map Reading.number
  | index value roots extensible =>
    exact (Read.finds_index h extensible).map fun n => Reading.number (n : Int)
  | length n => exact (Read.finds_length field h).map Reading.count
  | octets data => exact (Read.finds_octets data).map Reading.octets
  | openType data => exact (Read.finds_openType field h).map Reading.octets

/-- The bits that steps append. -/
def encodings (steps : List WriteStep) : List Bool :=
  steps.flatMap encoding

@[simp] theorem encodings_nil : encodings [] = [] := rfl

@[simp] theorem encodings_cons (step : WriteStep) (steps : List WriteStep) :
    encodings (step :: steps) = step.encoding ++ encodings steps := rfl

@[simp] theorem encodings_append (a b : List WriteStep) :
    encodings (a ++ b) = encodings a ++ encodings b :=
  List.flatMap_append

theorem holds_foldl {w : Writer} {bits : List Bool} (h : w.Holds bits) (steps : List WriteStep) :
    (steps.foldl (fun (w : Writer) (step : WriteStep) => step.run w) w).Holds
      (bits ++ encodings steps) := by
  induction steps generalizing w bits with
  | nil => simpa using h
  | cons step steps ih =>
    have := ih (Writer.holds_run h step)
    rwa [List.append_assoc] at this

/-- What has been written, bit by bit. -/
theorem ofOctets_write (steps : List WriteStep) :
    ∃ n < 8, Bits.ofOctets (write steps) = encodings steps ++ List.replicate n false :=
  (holds_foldl Writer.holds_empty steps).bits_eq

/-- Reader and writer go through the same steps: each read finds what was written and stops where the
writer stopped. -/
theorem runAll_of_rest (field : String) {tail : List Bool} {steps : List WriteStep}
    (h : ∀ step ∈ steps, step.Admissible) :
    ∀ {w : Writer} {bits : List Bool} {r : Reader}, w.Holds bits → r.position = bits.length →
      r.rest = encodings steps ++ tail →
      let outcomes := ReadStep.runAll (steps.map (counterpart field)) r
      outcomes.map (fun o => (o.result, o.reader.position)) =
          List.zipWith (fun step w => (.ok step.written, w.length)) steps (runAll steps w) ∧
        ((outcomes.map Outcome.reader).getLastD r).rest = tail := by
  induction steps with
  | nil =>
    intro w bits r _ _ hr
    exact ⟨rfl, hr⟩
  | cons step steps ih =>
    intro w bits r hw hpos hr
    have hstep := h step List.mem_cons_self
    have hmore := fun s hs => h s (List.mem_cons_of_mem _ hs)
    rw [encodings_cons, List.append_assoc] at hr
    have hread := hstep.finds field r _ hr
    have hw' := Writer.holds_run hw step
    have hpos' : (r.advance step.encoding.length).position = (bits ++ step.encoding).length := by
      rw [Reader.position_advance, hpos, List.length_append]
    have hr' : (r.advance step.encoding.length).rest = encodings steps ++ tail := by
      rw [Reader.rest_advance, hr, List.drop_left]
    obtain ⟨houtcomes, hrest⟩ := ih hmore hw' hpos' hr'
    simp only [List.map_cons, ReadStep.runAll, hread, runAll, List.zipWith_cons_cons,
      List.getLastD_cons]
    refine ⟨?_, hrest⟩
    rw [houtcomes, hpos', ← hw'.length_eq]

/-- Each read gives back what the write of its kind has written, and has then taken as many bits as
the writer had written. At the end fewer than eight bits are left, all of them zero. -/
theorem runAll_counterparts (field : String) (steps : List WriteStep)
    (h : ∀ step ∈ steps, step.Admissible) :
    let start := Reader.ofOctets (write steps)
    let outcomes := ReadStep.runAll (steps.map (counterpart field)) start
    let final := (outcomes.map Outcome.reader).getLastD start
    outcomes.map (fun o => (o.result, o.reader.position)) =
        List.zipWith (fun step w => (.ok step.written, w.length)) steps (runAll steps {}) ∧
      final.remaining < 8 ∧ ∀ bit ∈ final.rest, bit = false := by
  intro start outcomes final
  obtain ⟨n, hn, hbits⟩ := ofOctets_write steps
  have hrest : start.rest = encodings steps ++ List.replicate n false := by
    rw [Reader.rest_ofOctets, hbits]
  obtain ⟨houtcomes, hfinal⟩ := runAll_of_rest field h Writer.holds_empty rfl hrest
  refine ⟨houtcomes, ?_, ?_⟩
  · rw [← Reader.length_rest, hfinal, List.length_replicate]
    exact hn
  · intro bit hbit
    rw [hfinal] at hbit
    exact List.eq_of_mem_replicate hbit

/-- Writes that begin at all kinds of places in an octet. -/
def sample : List WriteStep :=
  [ .flag true, .constrained (-99999) (-100000) 800001, .openType [0xca, 0xfe], .index 4 5 true,
    .length 300, .bits 1 7, .octets [0x5a], .constrained 7 7 7 ]

theorem runAll_counterparts_sample :
    (∀ step ∈ sample, step.Admissible) ∧
      (ReadStep.runAll (sample.map (counterpart "value")) (.ofOctets (write sample))).map
          (fun o => (o.result, o.reader.position)) =
        [ (.ok (.flag true), 1), (.ok (.number (-99999)), 21), (.ok (.octets [0xca, 0xfe]), 45),
          (.ok (.number 4), 49), (.ok (.count 300), 65), (.ok (.number 1), 72),
          (.ok (.octets [0x5a]), 80), (.ok (.number 7), 80) ] :=
  have h : ∀ step ∈ sample, step.Admissible := by decide
  ⟨h, (runAll_counterparts "value" sample h).1.trans (by rfl)⟩

end WriteStep

end V2x.Per
