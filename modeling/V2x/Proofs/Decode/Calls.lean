import V2x.Proofs.Decode.Growth

/-!
# Calls inside calls

The calls that a parser makes are recorded inside its own. `Call.everyIn` goes through all of them and
`Call.depthIn` says how many run at the same time; `Scene.Makes` speaks of those that have been added.
-/

namespace V2x

namespace Call

mutual

/-- A call and all those inside it. -/
def every : Call → List Call
  | ⟨parser, span, result, inner⟩ => ⟨parser, span, result, inner⟩ :: everyIn inner

def everyIn : List Call → List Call
  | [] => []
  | call :: more => call.every ++ everyIn more

end

mutual

/-- The number of calls that run at the same time. -/
def depth : Call → Nat
  | ⟨_, _, _, inner⟩ => depthIn inner + 1

def depthIn : List Call → Nat
  | [] => 0
  | call :: more => max call.depth (depthIn more)

end

theorem every_eq (call : Call) : call.every = call :: everyIn call.inner := by
  obtain ⟨parser, span, result, inner⟩ := call
  rw [every]

theorem depth_eq (call : Call) : call.depth = depthIn call.inner + 1 := by
  obtain ⟨parser, span, result, inner⟩ := call
  rw [depth]

theorem mem_everyIn {calls : List Call} {c : Call} :
    c ∈ everyIn calls ↔ ∃ call ∈ calls, c ∈ call.every := by
  induction calls with
  | nil => simp [everyIn]
  | cons call more ih => simp [everyIn, ih]

/-- The property holds of a call and of all those inside it, at any depth. -/
def Throughout (P : Call → Prop) (call : Call) : Prop :=
  ∀ c ∈ call.every, P c

theorem throughout_iff {P : Call → Prop} {call : Call} :
    call.Throughout P ↔ P call ∧ ∀ inner ∈ call.inner, inner.Throughout P := by
  unfold Throughout
  rw [every_eq]
  constructor
  · intro h
    refine ⟨h call List.mem_cons_self, fun inner hinner c hc => h c ?_⟩
    exact List.mem_cons_of_mem _ (mem_everyIn.mpr ⟨inner, hinner, hc⟩)
  · rintro ⟨hcall, hinner⟩ c hc
    rcases List.mem_cons.mp hc with rfl | hin
    · exact hcall
    · obtain ⟨inner, hmem, hc⟩ := mem_everyIn.mp hin
      exact hinner inner hmem c hc

theorem depthIn_le {calls : List Call} {n : Nat} (h : ∀ call ∈ calls, call.depth ≤ n) :
    depthIn calls ≤ n := by
  induction calls with
  | nil => exact Nat.zero_le n
  | cons call more ih =>
    exact Nat.max_le.mpr ⟨h call List.mem_cons_self, ih fun c hc => h c (List.mem_cons_of_mem _ hc)⟩

end Call

/-- From the first scene to the second, calls have been added, all of them with the property. -/
def Scene.Makes (Q : Call → Prop) (s after : Scene) : Prop :=
  ∃ calls, after.calls = s.calls ++ calls ∧ ∀ call ∈ calls, Q call

namespace Scene.Makes

variable {Q R : Call → Prop} {s t u : Scene}

theorem of_same (h : t.calls = s.calls) : s.Makes Q t :=
  ⟨[], h.trans (List.append_nil _).symm, nofun⟩

theorem trans (h : s.Makes Q t) (h' : t.Makes Q u) : s.Makes Q u := by
  obtain ⟨calls, hcalls, hQ⟩ := h
  obtain ⟨more, hmore, hQ'⟩ := h'
  refine ⟨calls ++ more, by rw [hmore, hcalls, List.append_assoc], fun call hcall => ?_⟩
  exact (List.mem_append.mp hcall).elim (hQ call) (hQ' call)

theorem imp (h : s.Makes Q t) (hQR : ∀ call, Q call → R call) : s.Makes R t := by
  obtain ⟨calls, hcalls, hQ⟩ := h
  exact ⟨calls, hcalls, fun call hcall => hQR call (hQ call hcall)⟩

end Scene.Makes

def Scene.Makes.growth (Q : Call → Prop) : Growth where
  Rel := Scene.Makes Q
  quiet _ := True
  of_same _ hcalls := of_same hcalls
  trans := trans
  emit _ _ := of_same rfl
  ascend h := h
  leaf _ _ := trivial
  remark _ _ := trivial

end V2x
