/-!
# What a history leaves

Some events write: they set a value or take it away. What a history leaves is what the last of them has
written, or what was there before if none of them has.
-/

namespace V2x

variable {α β : Type}

/-- The value that events leave, the oldest of them first. For each event, `writes` says what it writes, if
anything: a value, or that there is none any more. -/
def lastWrite (writes : α → Option (Option β)) (before : Option β) (events : List α) : Option β :=
  (events.reverse.findSome? writes).getD before

variable (writes : α → Option (Option β)) (before : Option β)

@[simp] theorem lastWrite_nil : lastWrite writes before [] = before := rfl

theorem lastWrite_append (a b : List α) :
    lastWrite writes before (a ++ b) = lastWrite writes (lastWrite writes before a) b := by
  unfold lastWrite
  rw [List.reverse_append, List.findSome?_append]
  cases b.reverse.findSome? writes <;> rfl

theorem lastWrite_singleton (event : α) :
    lastWrite writes before [event] = (writes event).getD before := by
  simp [lastWrite]

theorem lastWrite_cons (event : α) (more : List α) :
    lastWrite writes before (event :: more) =
      lastWrite writes ((writes event).getD before) more := by
  rw [← List.singleton_append, lastWrite_append, lastWrite_singleton]

variable {writes}

theorem lastWrite_of_none {events : List α} (h : ∀ event ∈ events, writes event = none) :
    lastWrite writes before events = before := by
  have hnone : events.reverse.findSome? writes = none := by simpa using h
  rw [lastWrite, hnone, Option.getD_none]

/-- A value that was not there before has been written. -/
theorem exists_of_lastWrite {value : β} {events : List α}
    (h : lastWrite writes none events = some value) :
    ∃ event ∈ events, writes event = some (some value) := by
  unfold lastWrite at h
  cases hlast : events.reverse.findSome? writes with
  | none => simp [hlast] at h
  | some written =>
    obtain ⟨event, hmem, hwrites⟩ := List.exists_of_findSome?_eq_some hlast
    rw [hlast, Option.getD_some] at h
    exact ⟨event, List.mem_reverse.mp hmem, h ▸ hwrites⟩

end V2x
