/-!
# What a run comes to

A run ends with a value or a fault, and in either case with a state. A sequence of two runs is the
first one, followed by the second if the first came to a value.
-/

instance Except.decidableEq {ε α : Type} [DecidableEq ε] [DecidableEq α] :
    DecidableEq (Except ε α)
  | .ok a, .ok b => decidable_of_iff (a = b) (by simp)
  | .error e, .error f => decidable_of_iff (e = f) (by simp)
  | .ok _, .error _ => isFalse nofun
  | .error _, .ok _ => isFalse nofun

namespace EStateM

variable {ε σ α β : Type}

namespace Result

def outcome : Result ε σ α → Except ε α
  | ok a _ => .ok a
  | error fault _ => .error fault

def state : Result ε σ α → σ
  | ok _ s => s
  | error _ s => s

def of : Except ε α → σ → Result ε σ α
  | .ok a, s => ok a s
  | .error fault, s => error fault s

@[simp] theorem outcome_ok (a : α) (s : σ) : (ok a s : Result ε σ α).outcome = .ok a := rfl

@[simp] theorem outcome_error (fault : ε) (s : σ) :
    (error fault s : Result ε σ α).outcome = .error fault := rfl

@[simp] theorem state_ok (a : α) (s : σ) : (ok a s : Result ε σ α).state = s := rfl

@[simp] theorem state_error (fault : ε) (s : σ) : (error fault s : Result ε σ α).state = s := rfl

@[simp] theorem of_ok (a : α) (s : σ) : (of (.ok a) s : Result ε σ α) = ok a s := rfl

@[simp] theorem of_error (fault : ε) (s : σ) :
    (of (.error fault) s : Result ε σ α) = error fault s := rfl

@[simp] theorem outcome_of (o : Except ε α) (s : σ) : (of o s).outcome = o := by
  cases o <;> rfl

@[simp] theorem state_of (o : Except ε α) (s : σ) : (of o s).state = s := by
  cases o <;> rfl

theorem eq_of (x : Result ε σ α) : x = of x.outcome x.state := by
  cases x <;> rfl

theorem eq_ok {x : Result ε σ α} {a : α} {s : σ} (ho : x.outcome = .ok a) (hs : x.state = s) :
    x = ok a s := by
  rw [eq_of x, ho, hs, of_ok]

theorem exists_of_outcome {x : Result ε σ α} {o : Except ε α} (h : x.outcome = o) :
    ∃ s, x = of o s := by
  subst h
  exact ⟨x.state, x.eq_of⟩

end Result

theorem bind_eq (x : EStateM ε σ α) (f : α → EStateM ε σ β) (s : σ) :
    (x >>= f) s = match x s with
      | .ok a s => f a s
      | .error fault s => .error fault s := rfl

theorem bind_of_ok {x : EStateM ε σ α} {s s' : σ} {a : α} (h : x s = .ok a s')
    (f : α → EStateM ε σ β) : (x >>= f) s = f a s' := by
  rw [bind_eq, h]

theorem bind_of_error {x : EStateM ε σ α} {s s' : σ} {fault : ε} (h : x s = .error fault s')
    (f : α → EStateM ε σ β) : (x >>= f) s = .error fault s' := by
  rw [bind_eq, h]

theorem exists_of_bind_ok {x : EStateM ε σ α} {f : α → EStateM ε σ β} {s s' : σ} {b : β}
    (h : (x >>= f) s = .ok b s') : ∃ a t, x s = .ok a t ∧ f a t = .ok b s' := by
  rw [bind_eq] at h
  cases hx : x s with
  | ok a t =>
    rw [hx] at h
    exact ⟨a, t, rfl, h⟩
  | error fault t =>
    rw [hx] at h
    cases h

@[simp] theorem pure_eq (a : α) (s : σ) : (pure a : EStateM ε σ α) s = .ok a s := rfl

@[simp] theorem throw_eq (fault : ε) (s : σ) :
    (throw fault : EStateM ε σ α) s = .error fault s := rfl

end EStateM
