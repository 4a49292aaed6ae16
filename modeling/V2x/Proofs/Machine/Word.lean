import V2x.Proofs.Outcome
import V2x.Bits
import V2x.Fault

/-!
# Arithmetic on words

Decoders count and shift in words of 64 bits. A checked run does the same arithmetic and stops where it would
leave the words, also where a cast alone would wrap around. Agreement with a run on unbounded numbers (`Agrees`)
says that it never does, and that both come to the same.
-/

namespace V2x.Machine

/-- What arithmetic on words can do wrong. -/
inductive Trap
  /-- Comes to a number that is no signed word. -/
  | signed
  /-- Comes to a number that is no unsigned word. -/
  | unsigned
  /-- Reads more bits at once than a word has. -/
  | width
  /-- Shifts by as many places as a word has, or more. -/
  | shift
  /-- Looks beyond the end of octets or of a table. -/
  | bounds
  deriving DecidableEq

/-- Why a checked run stops. -/
inductive Halt
  | fault (fault : Fault)
  | trap (trap : Trap)
  deriving DecidableEq

abbrev Checked (σ α : Type) := EStateM Halt σ α

variable {σ α β : Type}

def check (holds : Prop) [Decidable holds] (trap : Trap) : Checked σ Unit :=
  if holds then pure () else throw (.trap trap)

def signed (n : Int) : Checked σ Int := do
  check (-2 ^ 63 ≤ n ∧ n < 2 ^ 63) .signed
  return n

def unsigned (n : Int) : Checked σ Nat := do
  check (0 ≤ n ∧ n < 2 ^ 64) .unsigned
  return n.toNat

/-- The octet with the value of a word. -/
def octet (n : Nat) : Checked σ UInt8 := do
  check (n < 256) .unsigned
  return UInt8.ofNat n

/-- Bits that leave the word are lost. -/
def shiftLeft (n places : Nat) : Checked σ Nat := do
  check (places < 64) .shift
  return n * 2 ^ places % 2 ^ 64

def shiftRight (n places : Nat) : Checked σ Nat := do
  check (places < 64) .shift
  return n / 2 ^ places

/-- Takes a word as a signed one and fills up with its sign. -/
def shiftSigned (n places : Nat) : Checked σ Int := do
  check (places < 64) .shift
  return (n : Int).bmod (2 ^ 64) / 2 ^ places

theorem get_bind (f : σ → Checked σ α) (s : σ) : (get >>= f) s = f s s := rfl

theorem set_bind (t : σ) (f : PUnit → Checked σ α) (s : σ) : (set t >>= f) s = f () t := rfl

theorem check_of {holds : Prop} [Decidable holds] (h : holds) (trap : Trap) :
    (check holds trap : Checked σ Unit) = pure () :=
  if_pos h

theorem signed_of {n : Int} (h : -2 ^ 63 ≤ n ∧ n < 2 ^ 63) : (signed n : Checked σ Int) = pure n := by
  rw [signed, check_of h]
  rfl

theorem unsigned_of {n : Int} (h : 0 ≤ n ∧ n < 2 ^ 64) :
    (unsigned n : Checked σ Nat) = pure n.toNat := by
  rw [unsigned, check_of h]
  rfl

theorem octet_of {n : Nat} (h : n < 256) : (octet n : Checked σ UInt8) = pure (UInt8.ofNat n) := by
  rw [octet, check_of h]
  rfl

theorem shiftLeft_of {n places : Nat} (h : places < 64) :
    (shiftLeft n places : Checked σ Nat) = pure (n * 2 ^ places % 2 ^ 64) := by
  rw [shiftLeft, check_of h]
  rfl

theorem shiftRight_of {n places : Nat} (h : places < 64) :
    (shiftRight n places : Checked σ Nat) = pure (n / 2 ^ places) := by
  rw [shiftRight, check_of h]
  rfl

theorem shiftSigned_of {n places : Nat} (h : places < 64) :
    (shiftSigned n places : Checked σ Int) = pure ((n : Int).bmod (2 ^ 64) / 2 ^ places) := by
  rw [shiftSigned, check_of h]
  rfl

/-! ## Agreement -/

/-- From states where `I` holds a checked run comes to what `n` comes to: to a value that `V` relates to its
value, or to the same fault, which is one of `F`. In either case `I` holds again. -/
def Agrees (I : σ → Prop) (F : Fault → Prop) (V : α → β → Prop) (m : Checked σ α)
    (n : EStateM Fault σ β) : Prop :=
  ∀ s, I s → I (n s).state ∧
    match n s with
    | .ok b t => ∃ a, m s = .ok a t ∧ V a b
    | .error fault t => m s = .error (.fault fault) t ∧ F fault

/-- The result of a checked run that has not trapped. -/
def untrapped : EStateM.Result Fault σ α → EStateM.Result Halt σ α
  | .ok a s => .ok a s
  | .error fault s => .error (.fault fault) s

namespace Agrees

variable {I : σ → Prop} {F F' : Fault → Prop} {V W : α → β → Prop}

theorem pure {a : α} {b : β} (h : V a b) : Agrees I F V (Pure.pure a) (Pure.pure b) :=
  fun _ hs => ⟨hs, a, rfl, h⟩

theorem throw {fault : Fault} (h : F fault) :
    Agrees I F V (MonadExcept.throw (Halt.fault fault)) (MonadExcept.throw fault) :=
  fun _ hs => ⟨hs, rfl, h⟩

theorem bind {γ δ : Type} {X : γ → δ → Prop} {m : Checked σ α} {n : EStateM Fault σ β}
    {f : α → Checked σ γ} {g : β → EStateM Fault σ δ} (h : Agrees I F V m n)
    (hnext : ∀ a b, V a b → Agrees I F X (f a) (g b)) : Agrees I F X (m >>= f) (n >>= g) := by
  intro s hs
  have hfirst := h s hs
  rw [EStateM.bind_eq, EStateM.bind_eq]
  cases hn : n s with
  | error fault t =>
    rw [hn] at hfirst
    obtain ⟨ht, hm, hfault⟩ := hfirst
    rw [hm]
    exact ⟨ht, rfl, hfault⟩
  | ok b t =>
    rw [hn] at hfirst
    obtain ⟨ht, a, hm, hv⟩ := hfirst
    rw [hm]
    exact hnext a b hv t ht

theorem eq_untrapped {m : Checked σ α} {n : EStateM Fault σ α} (h : Agrees I F Eq m n) {s : σ} (hs : I s) :
    m s = untrapped (n s) := by
  have hrun := h s hs
  cases hn : n s with
  | error fault t =>
    rw [hn] at hrun
    exact hrun.2.1
  | ok b t =>
    rw [hn] at hrun
    obtain ⟨-, a, hm, rfl⟩ := hrun
    exact hm

theorem fault_of_error {m : Checked σ α} {n : EStateM Fault σ β} (h : Agrees I F V m n) {s : σ} (hs : I s)
    {fault : Fault} (hn : (n s).outcome = .error fault) : F fault := by
  have hrun := h s hs
  cases hs : n s with
  | error fault' t =>
    rw [hs] at hrun hn
    cases hn
    exact hrun.2.2
  | ok b t =>
    rw [hs] at hn
    cases hn

theorem mono {m : Checked σ α} {n : EStateM Fault σ β} (h : Agrees I F V m n)
    (hF : ∀ fault, F fault → F' fault) (hV : ∀ a b, V a b → W a b) : Agrees I F' W m n := by
  intro s hs
  have hrun := h s hs
  cases hn : n s with
  | error fault t =>
    rw [hn] at hrun
    exact ⟨hrun.1, hrun.2.1, hF fault hrun.2.2⟩
  | ok b t =>
    rw [hn] at hrun
    obtain ⟨ht, a, hm, hv⟩ := hrun
    exact ⟨ht, a, hm, hV a b hv⟩

end Agrees

end V2x.Machine
