import Mathlib.Data.List.Basic
import V2x.Cursor
import V2x.Proofs.Outcome

/-!
# Headers one after another

Headers are of a fixed size, and any octets of that size are a header. Taken one after another they therefore
lie side by side from wherever the first one begins, up to the octets at the end that are too few for another
(`headers_tile`).
-/

namespace V2x

/-! ## Numbers in octets -/

namespace Octets

theorem foldl_toNat (octets : Octets) (n : Nat) :
    octets.foldl (fun n octet => 256 * n + octet.toNat) n = n * 256 ^ octets.length + toNat octets := by
  induction octets generalizing n with
  | nil => simp [toNat]
  | cons octet octets ih =>
    rw [toNat, List.foldl_cons, List.foldl_cons, ih, ih (256 * 0 + octet.toNat), List.length_cons,
      Nat.pow_succ', Nat.mul_zero, Nat.zero_add, Nat.add_mul, Nat.add_assoc, Nat.mul_comm 256 n,
      Nat.mul_assoc]

theorem toNat_cons (octet : UInt8) (octets : Octets) :
    toNat (octet :: octets) = octet.toNat * 256 ^ octets.length + toNat octets := by
  rw [toNat, List.foldl_cons, foldl_toNat, Nat.mul_zero, Nat.zero_add]

theorem toNat_lt (octets : Octets) : toNat octets < 256 ^ octets.length := by
  induction octets with
  | nil => decide
  | cons octet octets ih =>
    have hoctet := octet.toNat_lt
    have hfirst := Nat.mul_le_mul_right (256 ^ octets.length) (Nat.le_of_lt_succ hoctet)
    rw [toNat_cons, List.length_cons, Nat.pow_succ']
    omega

@[simp] theorem length_ofNat (count n : Nat) : (ofNat count n).length = count := by
  induction count with
  | zero => rfl
  | succ count ih => rw [ofNat, List.length_cons, ih]

theorem toNat_ofNat (count n : Nat) : toNat (ofNat count n) = n % 256 ^ count := by
  induction count with
  | zero => simp [ofNat, toNat, Nat.mod_one]
  | succ count ih =>
    have hsplit : n % 256 ^ (count + 1) = n % 256 ^ count + 256 ^ count * (n / 256 ^ count % 256) :=
      Nat.mod_pow_succ
    rw [ofNat, toNat_cons, length_ofNat, ih, UInt8.toNat_ofNat', hsplit, Nat.mul_comm, Nat.add_comm]

theorem ofNat_add_mul (count n m : Nat) : ofNat count (n + m * 256 ^ count) = ofNat count n := by
  induction count generalizing m with
  | zero => rfl
  | succ count ih =>
    have hsplit : n + m * 256 ^ (count + 1) = n + m * 256 * 256 ^ count := by
      rw [Nat.pow_succ', Nat.mul_assoc]
    have hfirst : UInt8.ofNat (n / 256 ^ count + m * 256) = UInt8.ofNat (n / 256 ^ count) := by
      apply UInt8.toNat_inj.mp
      rw [UInt8.toNat_ofNat', UInt8.toNat_ofNat']
      omega
    rw [ofNat, ofNat, hsplit, ih, Nat.add_mul_div_right _ _ (Nat.pow_pos (by decide)), hfirst]

theorem ofNat_toNat (octets : Octets) : ofNat octets.length (toNat octets) = octets := by
  induction octets with
  | nil => rfl
  | cons octet octets ih =>
    have hlt := toNat_lt octets
    have hfirst : (toNat octets + octet.toNat * 256 ^ octets.length) / 256 ^ octets.length =
        octet.toNat := by
      rw [Nat.add_mul_div_right _ _ (Nat.pow_pos (by decide)), Nat.div_eq_of_lt hlt, Nat.zero_add]
    rw [toNat_cons, List.length_cons, ofNat, Nat.add_comm (octet.toNat * _), ofNat_add_mul, ih, hfirst,
      UInt8.ofNat_toNat]

end Octets

/-! ## One header -/

variable {α : Type}

/-- Values of the form are written in `size` octets, and any octets of that size are such a value. -/
structure Fixed (decode : Octets → Except Fault (α × Octets)) (encode : α → Octets) (size : Nat)
    (form : α → Prop) : Prop where
  short : ∀ {data : Octets}, data.length < size →
    decode data = .error (.incomplete (8 * size) (8 * data.length))
  front : ∀ {data : Octets}, size ≤ data.length →
    ∃ a, form a ∧ decode data = .ok (a, data.drop size) ∧ encode a = data.take size
  back : ∀ {a : α}, form a → ∀ rest : Octets, decode (encode a ++ rest) = .ok (a, rest)

theorem Header.fixed : Fixed Header.decode Header.encode 6 fun _ => True where
  short {data} h := by
    match data, h with
    | [], _ | [_], _ | [_, _], _ | [_, _, _], _ | [_, _, _, _], _ | [_, _, _, _, _], _ => rfl
    | _ :: _ :: _ :: _ :: _ :: _ :: _, h =>
      simp only [List.length_cons] at h
      omega
  front {data} h := by
    match data, h with
    | version :: id :: a :: b :: c :: d :: rest, _ =>
      refine ⟨_, trivial, rfl, ?_⟩
      have hlt : Octets.toNat [a, b, c, d] < 256 ^ 4 := Octets.toNat_lt [a, b, c, d]
      have hback : Octets.ofNat 4 (Octets.toNat [a, b, c, d]) = [a, b, c, d] :=
        Octets.ofNat_toNat [a, b, c, d]
      rw [encode, UInt32.toNat_ofNat_of_lt' (Nat.lt_of_lt_of_eq hlt (by decide)), hback]
      rfl
  back {h} _ rest := by
    have hstation : Octets.toNat (Octets.ofNat 4 h.stationId.toNat) = h.stationId.toNat := by
      rw [Octets.toNat_ofNat]
      exact Nat.mod_eq_of_lt (Nat.lt_of_lt_of_eq h.stationId.toNat_lt (by decide))
    have hdecode : decode (encode h ++ rest) = .ok (⟨h.version, h.messageId,
        UInt32.ofNat (Octets.toNat (Octets.ofNat 4 h.stationId.toNat))⟩, rest) := rfl
    rw [hdecode, hstation, UInt32.ofNat_toNat]

namespace TransportHeader

theorem encode_ports (octets : Octets) (h : octets.length = 2) :
    Octets.ofNat 2 (UInt16.ofNat (Octets.toNat octets)).toNat = octets := by
  have hlt := Octets.toNat_lt octets
  have hback := Octets.ofNat_toNat octets
  rw [h] at hlt hback
  rw [UInt16.toNat_ofNat_of_lt' (Nat.lt_of_lt_of_eq hlt (by decide)), hback]

theorem decode_port (port : UInt16) :
    UInt16.ofNat (Octets.toNat (Octets.ofNat 2 port.toNat)) = port := by
  rw [Octets.toNat_ofNat, Nat.mod_eq_of_lt (Nat.lt_of_lt_of_eq port.toNat_lt (by decide)),
    UInt16.ofNat_toNat]

/-- Both forms lay two port numbers side by side, and differ only in what they make of them. -/
theorem fixed {make : UInt16 → UInt16 → TransportHeader}
    {decode : Octets → Except Fault (TransportHeader × Octets)}
    (hdecode : ∀ data, decode data = do
      let (first, second, rest) ← decodePorts data
      return (make first second, rest))
    (hencode : ∀ first second, encode (make first second) =
      Octets.ofNat 2 first.toNat ++ Octets.ofNat 2 second.toNat) :
    Fixed decode encode 4 fun h => ∃ first second, h = make first second where
  short {data} h := by
    rw [hdecode]
    match data, h with
    | [], _ | [_], _ | [_, _], _ | [_, _, _], _ => rfl
    | _ :: _ :: _ :: _ :: _, h =>
      simp only [List.length_cons] at h
      omega
  front {data} h := by
    match data, h with
    | a :: b :: c :: d :: rest, _ =>
      refine ⟨_, ⟨_, _, rfl⟩, (hdecode _).trans rfl, ?_⟩
      rw [hencode, encode_ports [a, b] rfl, encode_ports [c, d] rfl]
      rfl
  back {h} hform rest := by
    obtain ⟨first, second, rfl⟩ := hform
    have hports : decodePorts (Octets.ofNat 2 first.toNat ++ Octets.ofNat 2 second.toNat ++ rest) =
        .ok (UInt16.ofNat (Octets.toNat (Octets.ofNat 2 first.toNat)),
          UInt16.ofNat (Octets.toNat (Octets.ofNat 2 second.toNat)), rest) := rfl
    rw [hdecode, hencode, hports, decode_port, decode_port]
    rfl

theorem fixed_interactive :
    Fixed decodeInteractive encode 4 fun h => ∃ destination source, h = .interactive destination source :=
  fixed (fun _ => rfl) fun _ _ => rfl

theorem fixed_broadcast :
    Fixed decodeBroadcast encode 4 fun h => ∃ destination info, h = .broadcast destination info :=
  fixed (fun _ => rfl) fun _ _ => rfl

end TransportHeader

/-! ## Cursors -/

namespace Cursor

@[simp] theorem ahead_advance (c : Cursor) (n : Nat) : (c.advance n).ahead = c.ahead.drop n := by
  rw [ahead, advance, ahead, List.drop_drop]

@[simp] theorem advance_advance (c : Cursor) (m n : Nat) :
    (c.advance m).advance n = c.advance (m + n) := by
  simp only [advance, Nat.add_assoc]

theorem octet_of_cons {c : Cursor} {first : UInt8} {rest : Octets} (h : c.ahead = first :: rest) :
    octet c = .ok first (c.advance 1) := by
  rw [octet, h]

theorem numberFrom_of_append {octets : Octets} :
    ∀ {c : Cursor} {rest : Octets} (n : Nat), c.ahead = octets ++ rest →
      numberFrom n octets.length c =
        .ok (octets.foldl (fun n octet => 256 * n + octet.toNat) n) (c.advance octets.length) := by
  induction octets with
  | nil => intro c rest n _; rfl
  | cons first octets ih =>
    intro c rest n h
    have hmore : (c.advance 1).ahead = octets ++ rest := by rw [ahead_advance, h]; rfl
    rw [List.length_cons, numberFrom, EStateM.bind_of_ok (octet_of_cons h), ih _ hmore, advance_advance,
      Nat.add_comm 1]
    rfl

theorem number_of_append {octets rest : Octets} {c : Cursor} (count : Nat)
    (hcount : octets.length = count) (h : c.ahead = octets ++ rest) :
    number count c = .ok (Octets.toNat octets) (c.advance count) := by
  subst hcount
  exact numberFrom_of_append 0 h

theorem whole_of_lt {size : Nat} {c : Cursor} (h : c.ahead.length < size) (take : Take α) :
    whole size take c = .error (.incomplete (8 * size) (8 * c.ahead.length)) c := by
  rw [whole, if_pos h]

theorem whole_of_le {size : Nat} {c : Cursor} (h : size ≤ c.ahead.length) (take : Take α) :
    whole size take c = take c := by
  rw [whole, if_neg (Nat.not_lt.mpr h)]

theorem through_of_ok {decode : Octets → Except Fault (α × Octets)} {c : Cursor} {size : Nat} {a : α}
    (hsize : 0 < size) (hc : size ≤ c.ahead.length)
    (h : decode c.ahead = .ok (a, c.ahead.drop size)) :
    through decode c = .ok a (c.advance size) := by
  have hposition : c.data.length - (c.ahead.drop size).length = c.position + size := by
    rw [ahead, List.length_drop] at hc
    rw [ahead, List.length_drop, List.length_drop]
    omega
  rw [through, h]
  simp only [hposition]
  rfl

end Cursor

namespace Fixed

variable {decode : Octets → Except Fault (α × Octets)} {encode : α → Octets} {size : Nat}
  {form : α → Prop}

theorem through_of_lt (h : Fixed decode encode size form) {c : Cursor} (hc : c.ahead.length < size) :
    Cursor.through decode c = .error (.incomplete (8 * size) (8 * c.ahead.length)) c := by
  rw [Cursor.through, h.short hc]

theorem through_of_le (h : Fixed decode encode size form) (hsize : 0 < size) {c : Cursor}
    (hc : size ≤ c.ahead.length) :
    ∃ a, form a ∧ encode a = c.ahead.take size ∧
      Cursor.through decode c = .ok a (c.advance size) := by
  obtain ⟨a, hform, hdecode, hencode⟩ := h.front hc
  exact ⟨a, hform, hencode, Cursor.through_of_ok hsize hc hdecode⟩

end Fixed

/-! Octet by octet the same header is taken that is decoded of the octets ahead. -/

theorem Header.take_eq : Header.take = Cursor.through Header.decode := by
  funext c
  by_cases hc : c.ahead.length < 6
  · rw [Header.fixed.through_of_lt hc]
    exact Cursor.whole_of_lt hc _
  · have hle := Nat.le_of_not_lt hc
    refine (Cursor.whole_of_le hle _).trans ?_
    match hahead : c.ahead, hle with
    | version :: id :: s₀ :: s₁ :: s₂ :: s₃ :: rest, _ =>
      have hid : (c.advance 1).ahead = id :: s₀ :: s₁ :: s₂ :: s₃ :: rest := by
        rw [Cursor.ahead_advance, hahead]
        rfl
      have hstation : ((c.advance 1).advance 1).ahead = [s₀, s₁, s₂, s₃] ++ rest := by
        rw [Cursor.ahead_advance, hid]
        rfl
      have hdecode : Header.decode c.ahead = .ok
          (⟨version, id, UInt32.ofNat (Octets.toNat [s₀, s₁, s₂, s₃])⟩, c.ahead.drop 6) := by
        rw [hahead]
        rfl
      rw [Cursor.through_of_ok (by decide) (Nat.le_of_not_lt hc) hdecode,
        EStateM.bind_of_ok (Cursor.octet_of_cons hahead), EStateM.bind_of_ok (Cursor.octet_of_cons hid),
        EStateM.bind_of_ok (Cursor.number_of_append 4 rfl hstation)]
      rfl

namespace TransportHeader

theorem takePorts_eq {make : UInt16 → UInt16 → TransportHeader}
    {decode : Octets → Except Fault (TransportHeader × Octets)} {form : TransportHeader → Prop}
    (h : Fixed decode encode 4 form)
    (hdecode : ∀ data, decode data = do
      let (first, second, rest) ← decodePorts data
      return (make first second, rest)) :
    takePorts make = Cursor.through decode := by
  funext c
  by_cases hc : c.ahead.length < 4
  · rw [h.through_of_lt hc]
    exact Cursor.whole_of_lt hc _
  · have hle := Nat.le_of_not_lt hc
    refine (Cursor.whole_of_le hle _).trans ?_
    match hahead : c.ahead, hle with
    | a₀ :: a₁ :: b₀ :: b₁ :: rest, _ =>
      have hfirst : c.ahead = [a₀, a₁] ++ b₀ :: b₁ :: rest := hahead
      have hsecond : (c.advance 2).ahead = [b₀, b₁] ++ rest := by
        rw [Cursor.ahead_advance, hahead]
        rfl
      have hports : decode c.ahead = .ok (make (UInt16.ofNat (Octets.toNat [a₀, a₁]))
          (UInt16.ofNat (Octets.toNat [b₀, b₁])), c.ahead.drop 4) := by
        rw [hdecode, hahead]
        rfl
      rw [Cursor.through_of_ok (by decide) (Nat.le_of_not_lt hc) hports,
        EStateM.bind_of_ok (Cursor.number_of_append 2 rfl hfirst),
        EStateM.bind_of_ok (Cursor.number_of_append 2 rfl hsecond)]
      rfl

theorem takeInteractive_eq : takeInteractive = Cursor.through decodeInteractive :=
  takePorts_eq fixed_interactive fun _ => rfl

theorem takeBroadcast_eq : takeBroadcast = Cursor.through decodeBroadcast :=
  takePorts_eq fixed_broadcast fun _ => rfl

end TransportHeader

/-! ## One header after another -/

/-- Takes values one after another, up to the first fault. Each value comes with the position after it. -/
inductive Walk (take : Take α) : Cursor → List (α × Nat) → Fault → Cursor → Prop
  | stop {c final : Cursor} {fault : Fault} (h : take c = .error fault final) : Walk take c [] fault final
  | next {c c' final : Cursor} {a : α} {more : List (α × Nat)} {fault : Fault} (h : take c = .ok a c')
    (hmore : Walk take c' more fault final) : Walk take c ((a, c'.position) :: more) fault final

/-- From position `p` on the values lie side by side, as many as there is room for. What is left is too short
for another one, and the cursor is in front of it. -/
structure SideBySide (encode : α → Octets) (size : Nat) (form : α → Prop) (data : Octets) (p : Nat)
    (found : List (α × Nat)) (fault : Fault) (final : Cursor) : Prop where
  count : found.length = (data.length - p) / size
  form : ∀ value ∈ found, form value.1
  octets : (found.flatMap fun value => encode value.1) = (data.drop p).take (size * found.length)
  positions : found.map Prod.snd = (List.range found.length).map fun i => p + size * (i + 1)
  fault : fault = .incomplete (8 * size) (8 * ((data.length - p) % size))
  final : final = ⟨data, p + size * found.length⟩

/-- Values of a fixed size lie side by side in any octets, wherever the first one begins, and what is written
of a value is decoded as this value wherever it stands. -/
structure Tiles (decode : Octets → Except Fault (α × Octets)) (take : Take α) (encode : α → Octets)
    (size : Nat) (form : α → Prop) : Prop where
  through : take = Cursor.through decode
  exists_walk : ∀ c : Cursor, ∃ found fault final, Walk take c found fault final
  walk : ∀ {data : Octets} {p : Nat} {found : List (α × Nat)} {fault : Fault} {final : Cursor},
    Walk take ⟨data, p⟩ found fault final → SideBySide encode size form data p found fault final
  back : ∀ {a : α}, form a → ∀ before after : Octets,
    decode (encode a ++ after) = .ok (a, after) ∧
      take ⟨before ++ (encode a ++ after), before.length⟩ =
        .ok a ⟨before ++ (encode a ++ after), before.length + size⟩

namespace Fixed

variable {decode : Octets → Except Fault (α × Octets)} {encode : α → Octets} {size : Nat}
  {form : α → Prop}

theorem length_encode (h : Fixed decode encode size form) {a : α} (ha : form a) :
    (encode a).length = size := by
  have hback := h.back ha []
  rw [List.append_nil] at hback
  rcases Nat.lt_or_ge (encode a).length size with hlt | hle
  · rw [h.short hlt] at hback
    cases hback
  · obtain ⟨b, -, hfront, -⟩ := h.front hle
    rw [hfront] at hback
    have hnil := (Prod.mk.inj (Except.ok.inj hback)).2
    have hlength := congrArg List.length hnil
    rw [List.length_drop, List.length_nil] at hlength
    omega

theorem exists_walk (h : Fixed decode encode size form) (hsize : 0 < size) (c : Cursor) :
    ∃ found fault final, Walk (Cursor.through decode) c found fault final := by
  rcases Nat.lt_or_ge c.ahead.length size with hlt | hle
  · exact ⟨_, _, _, .stop (h.through_of_lt hlt)⟩
  · obtain ⟨a, -, -, htake⟩ := h.through_of_le hsize hle
    have hshorter : (c.advance size).ahead.length = c.ahead.length - size := by
      rw [Cursor.ahead_advance, List.length_drop]
    obtain ⟨found, fault, final, hmore⟩ := exists_walk h hsize (c.advance size)
    exact ⟨_, _, _, .next htake hmore⟩
termination_by c.ahead.length

/-- With one value in front, the octets after it are one size fewer. -/
theorem sideBySide_cons {data : Octets} {p : Nat} {found : List (α × Nat)} {fault : Fault}
    {final : Cursor} {a : α} (hsize : 0 < size) (ha : form a)
    (hencode : encode a = (data.drop p).take size) (hp : size ≤ data.length - p)
    (h : SideBySide encode size form data (p + size) found fault final) :
    SideBySide encode size form data p ((a, p + size) :: found) fault final := by
  have hless : data.length - (p + size) = data.length - p - size := by omega
  constructor
  case count =>
    rw [List.length_cons, h.count, hless]
    exact (Nat.div_eq_sub_div hsize hp).symm
  case form => exact List.forall_mem_cons.mpr ⟨ha, h.form⟩
  case octets =>
    rw [List.flatMap_cons, h.octets, hencode, List.length_cons, Nat.mul_succ, Nat.add_comm (size * _),
      List.take_add, List.drop_drop]
  case positions =>
    rw [List.length_cons, List.range_succ_eq_map, List.map_cons, List.map_cons, h.positions,
      List.map_map]
    refine List.cons_eq_cons.mpr ⟨by simp, List.map_congr_left fun i _ => ?_⟩
    simp only [Function.comp_apply, Nat.mul_succ]
    omega
  case fault => rw [h.fault, hless, ← Nat.mod_eq_sub_mod hp]
  case final => rw [h.final, List.length_cons, Nat.mul_succ, Nat.add_assoc, Nat.add_comm size]

theorem sideBySide_of_walk (h : Fixed decode encode size form) (hsize : 0 < size) {c final : Cursor}
    {found : List (α × Nat)} {fault : Fault} (hwalk : Walk (Cursor.through decode) c found fault final) :
    SideBySide encode size form c.data c.position found fault final := by
  have hahead : ∀ c : Cursor, c.ahead.length = c.data.length - c.position := fun c => List.length_drop
  induction hwalk with
  | @stop c final fault htake =>
    -- there is no other fault than that of octets missing
    have hlt : c.ahead.length < size := by
      by_contra hle
      obtain ⟨a, -, -, hok⟩ := h.through_of_le hsize (Nat.le_of_not_lt hle)
      rw [hok] at htake
      cases htake
    rw [h.through_of_lt hlt] at htake
    cases htake
    rw [hahead] at hlt ⊢
    exact ⟨(Nat.div_eq_of_lt hlt).symm, nofun, rfl, rfl, by rw [Nat.mod_eq_of_lt hlt], rfl⟩
  | @next c c' final a more fault htake hmore ih =>
    have hle : size ≤ c.ahead.length := by
      by_contra hlt
      rw [h.through_of_lt (Nat.lt_of_not_le hlt)] at htake
      cases htake
    -- the taken value is the one the octets ahead tell, and the rest is a walk from behind it
    obtain ⟨b, hb, hencode, hok⟩ := h.through_of_le hsize hle
    rw [hok] at htake
    cases htake
    exact sideBySide_cons hsize hb hencode (by rwa [hahead] at hle) ih

theorem tiles (h : Fixed decode encode size form) (hsize : 0 < size) {take : Take α}
    (htake : take = Cursor.through decode) : Tiles decode take encode size form := by
  subst htake
  refine ⟨rfl, h.exists_walk hsize, fun hwalk => h.sideBySide_of_walk hsize hwalk, ?_⟩
  intro a ha before after
  have hback := h.back ha after
  have hahead : Cursor.ahead ⟨before ++ (encode a ++ after), before.length⟩ = encode a ++ after :=
    List.drop_left
  have hlength := h.length_encode ha
  have hdrop : (encode a ++ after).drop size = after := List.drop_left' hlength
  refine ⟨hback, Cursor.through_of_ok hsize ?_ ?_⟩
  · rw [hahead, List.length_append, hlength]
    omega
  · rw [hahead, hback, hdrop]

end Fixed

/-- Headers of messages lie side by side from any position of any octets, six octets each, and so do transport
headers of either form, four octets each. -/
theorem headers_tile :
    Tiles Header.decode Header.take Header.encode 6 (fun _ => True) ∧
    Tiles TransportHeader.decodeInteractive TransportHeader.takeInteractive TransportHeader.encode 4
      (fun h => ∃ destination source, h = .interactive destination source) ∧
    Tiles TransportHeader.decodeBroadcast TransportHeader.takeBroadcast TransportHeader.encode 4
      (fun h => ∃ destination info, h = .broadcast destination info) :=
  ⟨Header.fixed.tiles (by decide) Header.take_eq,
    TransportHeader.fixed_interactive.tiles (by decide) TransportHeader.takeInteractive_eq,
    TransportHeader.fixed_broadcast.tiles (by decide) TransportHeader.takeBroadcast_eq⟩

end V2x
