import V2x.Proofs.Per.View

/-!
# What reads are made of

Apart from the read that takes everything left, each read is put together from reads of bits. What
holds of those and is kept by sequences therefore holds of every read.
-/

namespace V2x.Per.Read

/-- Reads put together from reads of bits. Only these find bits missing. -/
inductive Built : {α : Type} → Read α → Prop
  | pure {α : Type} (a : α) : Built (Pure.pure a)
  | throw {α : Type} (fault : Fault)
      (h : ∀ needed available, fault ≠ .incomplete needed available := by nofun) :
      Built (throw fault : Read α)
  | bits (n : Nat) : Built (bits n)
  | bind {α β : Type} {read : Read α} {next : α → Read β} :
    Built read → (∀ a, Built (next a)) → Built (read >>= next)

namespace Built

variable {α β : Type}

theorem map {read : Read α} (h : read.Built) (f : α → β) :
    (do return f (← read) : Read β).Built :=
  h.bind fun a => .pure (f a)

theorem number (width : Nat) : (number width).Built :=
  (bits width).map Bits.toNat

theorem flag : flag.Built :=
  (bits 1).map fun bits => bits.headD false

theorem extensionBit (extensible : Bool) : (extensionBit extensible).Built := by
  cases extensible with
  | false => exact .pure false
  | true => exact flag

theorem constrained (lower upper : Int) : (constrained lower upper).Built :=
  (number _).map fun offset : Nat => (lower + (offset : Int)).bmod (2 ^ 64)

theorem length (field : String) : (length field).Built := by
  refine flag.bind fun b => ?_
  cases b with
  | false => exact number 7
  | true =>
    refine flag.bind fun b => ?_
    cases b with
    | false => exact number 14
    | true => exact .throw _

theorem extensibleInteger (field : String) (lower upper : Int) :
    (extensibleInteger field lower upper).Built := by
  refine flag.bind fun b => ?_
  cases b with
  | false => exact constrained lower upper
  | true =>
    refine (length field).bind fun count => ?_
    by_cases h : count = 0 ∨ 8 < count
    · rw [if_pos h]
      exact .throw _
    · rw [if_neg h]
      exact (bits _).map Bits.toInt

theorem normallySmall : normallySmall.Built := by
  refine flag.bind fun b => ?_
  cases b with
  | false => exact number 6
  | true =>
    refine (length _).bind fun count => ?_
    by_cases h : 8 < count
    · rw [if_pos h]
      exact .throw _
    · rw [if_neg h]
      exact number _

theorem index (roots : Nat) (extensible : Bool) : (index roots extensible).Built := by
  refine (extensionBit extensible).bind fun b => ?_
  cases b with
  | false => exact number _
  | true =>
    refine normallySmall.bind fun addition => ?_
    by_cases h : 2 ^ 64 ≤ roots + addition
    · rw [if_pos h]
      exact .throw _
    · rw [if_neg h]
      exact .pure _

theorem size (lower upper : Nat) : (size lower upper).Built := by
  have := (constrained lower upper).map fun n : Int => (n % 2 ^ 64).toNat
  exact this

theorem octets (count : Nat) : (octets count).Built := by
  rw [octets_eq]
  exact (bits _).map Bits.toOctets

theorem openType (field : String) : (openType field).Built :=
  (length field).bind octets

theorem openTypes (field : String) : ∀ present : List Bool, (openTypes field present).Built
  | [] => .pure []
  | true :: more => (openType field).bind fun first => (openTypes field more).map (first :: ·)
  | false :: more => openTypes field more

theorem additions : additions.Built := by
  refine normallySmall.bind fun last => ?_
  by_cases h : 64 ≤ last
  · rw [if_pos h]
    exact .throw _
  · rw [if_neg h]
    exact (bits _).bind (openTypes _)

end Built

end V2x.Per.Read
