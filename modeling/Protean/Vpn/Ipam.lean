import Protean.Inet.Bytes

namespace Protean.Vpn

open Inet

/-- The last byte first. A byte that does not wrap ends the loop. -/
def incBytes : List UInt8 → List UInt8
  | [] => []
  | b :: rest => if b + 1 ≠ 0 then (b + 1) :: rest else (b + 1) :: incBytes rest

def incIP (ip : Addr) : Addr := .ofBytes (incBytes ip.bytes.reverse).reverse

/-- The first byte in which they differ decides. -/
def firstAfter : List UInt8 → List UInt8 → Bool
  | a :: as, b :: bs => if a ≠ b then b < a else firstAfter as bs
  | _, _ => false

def bytesAfter (a b : Addr) : Bool := firstAfter (Addr.v6 a.to16).bytes (Addr.v6 b.to16).bytes

inductive IpamError
  | parseCIDR (cidr : Text)
  | invalidStart (rangeStart : Text)
  | startOutside (rangeStart cidr : Text)
  | invalidEnd (rangeEnd : Text)
  | endOutside (rangeEnd cidr : Text)
  | noFreeAddress (cidr : Text) (range : Option (Text × Text))
  deriving DecidableEq, Repr

/-- The search from an address on. It gives no answer when the fuel runs out. -/
def scan (ipnet : IPNet) (last : Option Addr) (used : List Text) : Nat → Addr → Option (Option Addr)
  | 0, _ => none
  | fuel + 1, cur =>
    if ipnet.contains cur then
      if last.any (bytesAfter cur) then some none
      else if cur.equal ipnet.addr then scan ipnet last used fuel (incIP cur)
      else if cur.toText ∉ used then some (some cur)
      else scan ipnet last used fuel (incIP cur)
    else some none

/-- The answer as a host route, or the error. -/
def answer (maskBits : Nat) (failed : IpamError) : Option Addr → Except IpamError Text
  | some a => .ok (a.toText ++ '/' :: Text.decimal maskBits)
  | none => .error failed

def nextFreeIP (fuel : Nat) (cidr : Text) (used : List Text) : Option (Except IpamError Text) :=
  match parseCIDR cidr with
  | none => some (.error (.parseCIDR cidr))
  | some (ip, ipnet) =>
    (scan ipnet none used fuel ipnet.addr).map (answer ip.to4.bitLen (.noFreeAddress cidr none))

/-- A bound of the range: an empty text is none. -/
def rangeBound (ipnet : IPNet) (invalid outside : IpamError) (bound : Text) : Except IpamError (Option Addr) :=
  if bound = [] then .ok none
  else
    match parseIP bound with
    | none => .error invalid
    | some a => if ipnet.contains a then .ok (some a) else .error outside

def nextFreeIPInRange (fuel : Nat) (cidr rangeStart rangeEnd : Text) (used : List Text) :
    Option (Except IpamError Text) :=
  match parseCIDR cidr with
  | none => some (.error (.parseCIDR cidr))
  | some (_, ipnet) =>
    match rangeBound ipnet (.invalidStart rangeStart) (.startOutside rangeStart cidr) rangeStart with
    | .error e => some (.error e)
    | .ok start =>
      match rangeBound ipnet (.invalidEnd rangeEnd) (.endOutside rangeEnd cidr) rangeEnd with
      | .error e => some (.error e)
      | .ok last =>
        (scan ipnet last used fuel (start.getD ipnet.addr)).map
          (answer ipnet.addr.to4.bitLen (.noFreeAddress cidr (some (rangeStart, rangeEnd))))

section
variable {k n m : Nat}

theorem incBytes_bytesLE (k n : Nat) : incBytes (bytesLE k n) = bytesLE k (n + 1) := by
  induction k generalizing n with
  | zero => rfl
  | succ k ih =>
    have next : UInt8.ofNat n + 1 = UInt8.ofNat (n + 1) := by simp
    have zero : UInt8.ofNat (n + 1) = 0 ↔ (n + 1) % 256 = 0 := by
      rw [← UInt8.toNat_inj, UInt8.toNat_ofNat']
      rfl
    rw [bytesLE, bytesLE, incBytes, next]
    by_cases wraps : (n + 1) % 256 = 0
    · rw [if_neg (not_not.mpr (zero.mpr wraps)), ih, show n / 256 + 1 = (n + 1) / 256 by omega]
    · rw [if_pos fun same => wraps (zero.mp same), show n / 256 = (n + 1) / 256 by omega]

theorem incIP_v4 (a : BitVec 32) : incIP (.v4 a) = .v4 (a + 1) := by
  rw [incIP, Addr.bytes, List.reverse_reverse, incBytes_bytesLE, Addr.ofBytes,
    if_pos (by rw [List.length_reverse, length_bytesLE]), List.reverse_reverse, ofBytesLE_bytesLE]
  refine congrArg Addr.v4 (BitVec.eq_of_toNat_eq ?_)
  rw [BitVec.toNat_ofNat, BitVec.toNat_add]
  simp

theorem incIP_v6 (a : BitVec 128) : incIP (.v6 a) = .v6 (a + 1) := by
  rw [incIP, Addr.bytes, List.reverse_reverse, incBytes_bytesLE, Addr.ofBytes,
    if_neg (by rw [List.length_reverse, length_bytesLE]; decide), List.reverse_reverse, ofBytesLE_bytesLE]
  refine congrArg Addr.v6 (BitVec.eq_of_toNat_eq ?_)
  rw [BitVec.toNat_ofNat, BitVec.toNat_add]
  simp

theorem firstAfter_append {as bs : List UInt8} (same : as.length = bs.length) (a b : UInt8) :
    firstAfter (as ++ [a]) (bs ++ [b]) = if as = bs then decide (b < a) else firstAfter as bs := by
  induction as generalizing bs with
  | nil =>
    rw [List.length_nil] at same
    rw [List.length_eq_zero_iff.mp same.symm]
    by_cases equal : a = b <;> simp [firstAfter, equal]
  | cons x as ih =>
    cases bs with
    | nil => cases same
    | cons y bs =>
      rw [List.length_cons, List.length_cons, Nat.add_right_cancel_iff] at same
      rw [List.cons_append, List.cons_append, firstAfter, firstAfter, ih same]
      by_cases equal : x = y
      · simp [equal]
      · simp [equal]

theorem bytesLE_inj (boundN : n < 256 ^ k) (boundM : m < 256 ^ k) : bytesLE k n = bytesLE k m ↔ n = m := by
  constructor
  · intro same
    have value := congrArg ofBytesLE same
    rwa [ofBytesLE_bytesLE, ofBytesLE_bytesLE, Nat.mod_eq_of_lt boundN, Nat.mod_eq_of_lt boundM] at value
  · rintro rfl
    rfl

/-- Bytes are compared as the numbers they stand for. -/
theorem firstAfter_bytesLE (boundN : n < 256 ^ k) (boundM : m < 256 ^ k) :
    firstAfter (bytesLE k n).reverse (bytesLE k m).reverse = decide (m < n) := by
  induction k generalizing n m with
  | zero =>
    rw [Nat.pow_zero] at boundN boundM
    rw [show n = m by omega]
    simp [bytesLE, firstAfter]
  | succ k ih =>
    have power : 256 ^ (k + 1) = 256 ^ k * 256 := Nat.pow_succ 256 k
    have highN : n / 256 < 256 ^ k := by
      rw [Nat.div_lt_iff_lt_mul (by decide), ← power]
      exact boundN
    have highM : m / 256 < 256 ^ k := by
      rw [Nat.div_lt_iff_lt_mul (by decide), ← power]
      exact boundM
    have low : UInt8.ofNat m < UInt8.ofNat n ↔ m % 256 < n % 256 := by
      rw [UInt8.lt_iff_toNat_lt, UInt8.toNat_ofNat', UInt8.toNat_ofNat']
    have equal : (bytesLE k (n / 256)).reverse = (bytesLE k (m / 256)).reverse ↔ n / 256 = m / 256 := by
      rw [List.reverse_inj, bytesLE_inj highN highM]
    rw [bytesLE, bytesLE, List.reverse_cons, List.reverse_cons,
      firstAfter_append (by rw [List.length_reverse, List.length_reverse, length_bytesLE, length_bytesLE]),
      ih highN highM]
    by_cases same : n / 256 = m / 256
    · rw [if_pos (equal.mpr same), decide_eq_decide, low]
      omega
    · rw [if_neg fun reversed => same (equal.mp reversed), decide_eq_decide]
      omega

end

theorem bytesAfter_iff {a b : Addr} : bytesAfter a b = true ↔ b.value < a.value := by
  have after : bytesAfter a b = decide (b.value < a.value) :=
    firstAfter_bytesLE (k := 16) a.to16.isLt b.to16.isLt
  rw [after, decide_eq_true_iff]

/-- A network of version 6 has none of the addresses that stand for version 4. -/
def Apart (ipnet : IPNet) : Prop :=
  ∀ b, ipnet.addr = .v6 b → ∀ x : BitVec 128, x.toNat / 2 ^ 32 = 0xffff → Inet.mask ipnet.ones x ≠ b

/-- A network as a range of numbers in which the search goes up by one and which
it leaves at the end. -/
structure Block (ipnet : IPNet) (high : Nat) : Prop where
  contains_iff : ∀ a, ipnet.contains a = true ↔ ipnet.addr.value ≤ a.value ∧ a.value ≤ high
  next : ∀ a, ipnet.contains a = true → a.value < high → (incIP a).value = a.value + 1
  ends : ∀ a, ipnet.contains a = true → a.value = high → ipnet.contains (incIP a) = false

section
variable {ones : Nat}

theorem value_incIP_v4 (a : BitVec 32) :
    (incIP (.v4 a)).value = if a.toNat + 1 = 2 ^ 32 then 0xffff * 2 ^ 32 else (Addr.v4 a).value + 1 := by
  have bound := a.isLt
  have one : (1 : BitVec 32).toNat = 1 := rfl
  rw [incIP_v4, value_v4, value_v4, BitVec.toNat_add, one]
  split <;> omega

theorem value_incIP_v6 (a : BitVec 128) :
    (incIP (.v6 a)).value = if a.toNat + 1 = 2 ^ 128 then 0 else (Addr.v6 a).value + 1 := by
  have bound := a.isLt
  have one : (1 : BitVec 128).toNat = 1 := rfl
  rw [incIP_v6, value_v6, value_v6, BitVec.toNat_add, one]
  split <;> omega

/-- The addresses of a network of version 4 are a range. -/
theorem contains_v4_iff (short : ones ≤ 32) (a : BitVec 32) (x : Addr) :
    IPNet.contains ⟨.v4 (mask ones a), ones⟩ x = true ↔
      (Addr.v4 (mask ones a)).value ≤ x.value ∧ x.value ≤ (Addr.v4 (mask ones a)).value + 2 ^ (32 - ones) - 1 := by
  have low := value_v4 (mask ones a)
  have top := toNat_mask_add_le short a
  have positive := Nat.two_pow_pos (32 - ones)
  rw [IPNet.contains_iff]
  change (Addr.v4 (mask ones a)).mask ones = x.to4.mask ones ↔ _
  rw [← x.value_to4]
  cases four : x.to4 with
  | v4 y =>
    have value := value_v4 y
    rw [Addr.mask, Addr.mask, Addr.v4.injEq, mask_eq_mask_iff_block]
    omega
  | v6 y =>
    have apart := (Addr.to4_eq_v6 four).2
    rw [value_v6, Addr.mask, Addr.mask]
    refine iff_of_false Addr.noConfusion ?_
    omega

theorem block_v4 (long : 1 ≤ ones) (short : ones ≤ 32) (a : BitVec 32) :
    ∃ high, Block ⟨.v4 (mask ones a), ones⟩ high := by
  have low := value_v4 (mask ones a)
  have top := toNat_mask_add_le short a
  have length : 2 ^ (32 - ones) ≤ 2 ^ 31 := Nat.pow_le_pow_right (by decide) (by omega)
  have positive := Nat.two_pow_pos (32 - ones)
  refine ⟨(Addr.v4 (mask ones a)).value + 2 ^ (32 - ones) - 1, contains_v4_iff short a, fun x contained below => ?_,
    fun x contained last => ?_⟩
  · cases x with
    | v4 y =>
      have value := value_v4 y
      rw [value_incIP_v4, if_neg (by omega)]
    | v6 y =>
      have value := value_v6 y
      rw [value_incIP_v6, if_neg (by omega)]
  · rw [← Bool.not_eq_true, contains_v4_iff short]
    cases x with
    | v4 y =>
      have value := value_v4 y
      rw [value_incIP_v4]
      split <;> omega
    | v6 y =>
      have value := value_v6 y
      rw [value_incIP_v6, if_neg (by omega)]
      omega

section
variable {a : BitVec 128} (apart : Apart ⟨.v6 (mask ones a), ones⟩)
include apart

theorem Apart.not_mapped : (mask ones a).toNat / 2 ^ 32 ≠ 0xffff :=
  fun mapped => apart _ rfl _ mapped (mask_mask_of_le le_rfl a)

theorem Apart.to4 : IPNet.to4 ⟨.v6 (mask ones a), ones⟩ = ⟨.v6 (mask ones a), ones⟩ := by
  unfold IPNet.to4
  dsimp only
  rw [Addr.to4_of_not_mapped apart.not_mapped]

/-- The addresses of a network of version 6 are a range. -/
theorem contains_v6_iff (short : ones ≤ 128) (x : Addr) : IPNet.contains ⟨.v6 (mask ones a), ones⟩ x = true ↔
    (mask ones a).toNat ≤ x.value ∧ x.value ≤ (mask ones a).toNat + 2 ^ (128 - ones) - 1 := by
  have top := toNat_mask_add_le short a
  have positive := Nat.two_pow_pos (128 - ones)
  rw [IPNet.contains_iff, apart.to4, Addr.to4_of_not_mapped apart.not_mapped, ← x.value_to4]
  cases six : x.to4 with
  | v4 y =>
    refine iff_of_false nofun fun within => ?_
    have value := value_v4 y
    have bound := y.isLt
    -- its place among the addresses of version 6 would be in the network
    have same : mask ones (mask ones a) = mask ones (Addr.v4 y).to16 := by
      rw [mask_eq_mask_iff_block]
      rw [Addr.value] at within
      omega
    rw [mask_mask_of_le le_rfl] at same
    refine apart _ rfl (Addr.v4 y).to16 ?_ same.symm
    rw [Addr.value] at value
    omega
  | v6 y =>
    rw [Addr.mask, Addr.mask, Addr.v6.injEq, mask_eq_mask_iff_block, value_v6]
    dsimp only
    omega

theorem Apart.eq_v6 {x : Addr} (contained : IPNet.contains ⟨.v6 (mask ones a), ones⟩ x = true) : ∃ y, x = .v6 y := by
  rw [IPNet.contains_iff, apart.to4, Addr.to4_of_not_mapped apart.not_mapped] at contained
  cases x with
  | v4 y => cases contained
  | v6 y => exact ⟨y, rfl⟩

theorem block_v6 (long : 1 ≤ ones) (short : ones ≤ 128) : ∃ high, Block ⟨.v6 (mask ones a), ones⟩ high := by
  have top := toNat_mask_add_le short a
  have length : 2 ^ (128 - ones) ≤ 2 ^ 127 := Nat.pow_le_pow_right (by decide) (by omega)
  have positive := Nat.two_pow_pos (128 - ones)
  refine ⟨(mask ones a).toNat + 2 ^ (128 - ones) - 1, contains_v6_iff apart short, fun x contained below => ?_,
    fun x contained last => ?_⟩
  · obtain ⟨y, rfl⟩ := apart.eq_v6 contained
    have value := value_v6 y
    rw [value_incIP_v6, if_neg (by omega)]
  · obtain ⟨y, rfl⟩ := apart.eq_v6 contained
    have value := value_v6 y
    rw [← Bool.not_eq_true, contains_v6_iff apart short, value_incIP_v6]
    split <;> omega

end

end

/-- A network that was read is the prefix of the address. -/
theorem block_of_parseCIDR {cidr : Text} {ip : Addr} {ipnet : IPNet} (read : parseCIDR cidr = some (ip, ipnet))
    (long : 1 ≤ ipnet.ones) (apart : Apart ipnet) : ∃ high, Block ipnet high := by
  obtain ⟨short, whole⟩ := parseCIDR_net read
  rw [whole] at apart ⊢
  cases ip with
  | v4 a => exact block_v4 long short a
  | v6 a => exact block_v6 apart long short

/-- The least address with a property, if there is one. -/
def IsLeast (P : Addr → Prop) : Option Addr → Prop
  | some a => P a ∧ ∀ b, P b → a.value ≤ b.value
  | none => ∀ a, ¬ P a

theorem IsLeast.congr {P Q : Addr → Prop} (same : ∀ a, P a ↔ Q a) {r : Option Addr} (least : IsLeast P r) :
    IsLeast Q r := by
  have equal : P = Q := funext fun a => propext (same a)
  rwa [← equal]

/-- What the search may still find from a number on. -/
structure Ahead (ipnet : IPNet) (last : Option Addr) (used : List Text) (first : Nat) (a : Addr) : Prop where
  inside : ipnet.contains a = true
  above : first ≤ a.value
  below : ∀ e, last = some e → a.value ≤ e.value
  host : a.value ≠ ipnet.addr.value
  unused : a.toText ∉ used

variable {cur : Addr} {fuel : Nat}

section
variable {ipnet : IPNet} {high : Nat} {last : Option Addr} {used : List Text}

theorem ahead_succ_iff (passed : cur.value = ipnet.addr.value ∨ cur.toText ∈ used) (a : Addr) :
    Ahead ipnet last used (cur.value + 1) a ↔ Ahead ipnet last used cur.value a := by
  constructor
  · intro ahead
    exact { ahead with above := Nat.le_of_succ_le ahead.above }
  · intro ahead
    refine { ahead with above := Nat.lt_of_le_of_ne ahead.above fun same => ?_ }
    rcases passed with base | taken
    · exact ahead.host (same.symm.trans base)
    · exact ahead.unused (Addr.toText_eq_of_value same ▸ taken)

/-- With enough fuel the search finds the least address ahead. -/
theorem scan_least (block : Block ipnet high) (contained : ipnet.contains cur = true) (enough : high + 2 ≤ fuel + cur.value) :
    ∃ r, scan ipnet last used fuel cur = some r ∧ IsLeast (Ahead ipnet last used cur.value) r := by
  induction fuel generalizing cur with
  | zero =>
    have bound := (block.contains_iff cur).mp contained
    omega
  | succ fuel ih =>
    have bound := (block.contains_iff cur).mp contained
    have goOn : cur.value = ipnet.addr.value ∨ cur.toText ∈ used →
        ∃ r, scan ipnet last used fuel (incIP cur) = some r ∧ IsLeast (Ahead ipnet last used cur.value) r := by
      intro passed
      by_cases top : cur.value = high
      · refine ⟨none, ?_, fun a ahead => ?_⟩
        · obtain ⟨fuel, rfl⟩ : ∃ n, fuel = n + 1 := ⟨fuel - 1, by omega⟩
          rw [scan, block.ends cur contained top]
          rfl
        · have next := (ahead_succ_iff passed a).mpr ahead
          have within := (block.contains_iff a).mp next.inside
          have above := next.above
          omega
      · have step := block.next cur contained (by omega)
        have inside : ipnet.contains (incIP cur) = true := (block.contains_iff _).mpr (by omega)
        obtain ⟨r, found, least⟩ := ih inside (by omega)
        rw [step] at least
        exact ⟨r, found, least.congr (ahead_succ_iff passed)⟩
    rw [scan, if_pos contained]
    by_cases past : last.any (bytesAfter cur) = true
    · rw [if_pos past]
      refine ⟨none, rfl, fun a ahead => ?_⟩
      obtain ⟨e, same, after⟩ := (Option.any_eq_true _ _).mp past
      have below := ahead.below e same
      have above := ahead.above
      have before := bytesAfter_iff.mp after
      omega
    · rw [if_neg past]
      by_cases base : cur.equal ipnet.addr = true
      · rw [if_pos base]
        exact goOn (.inl (Addr.equal_iff.mp base))
      · rw [if_neg base]
        by_cases free : cur.toText ∉ used
        · rw [if_pos free]
          refine ⟨some cur, rfl, ⟨contained, le_rfl, fun e same => ?_, fun same => ?_, free⟩, fun b ahead => ahead.above⟩
          · by_contra above
            refine past ((Option.any_eq_true _ _).mpr ⟨e, same, bytesAfter_iff.mpr ?_⟩)
            omega
          · exact base (Addr.equal_iff.mpr same)
        · rw [if_neg free]
          exact goOn (.inr (not_not.mp free))

end

/-- A bound is left out or lies in the network. -/
def Within (ipnet : IPNet) (bound : Text) : Prop := bound = [] ∨ ∃ a, parseIP bound = some a ∧ ipnet.contains a = true

/-- An address of the network that may be given out. -/
structure Free (ipnet : IPNet) (rangeStart rangeEnd : Text) (used : List Addr) (a : Addr) : Prop where
  inside : ipnet.contains a = true
  above : ∀ s, parseIP rangeStart = some s → s.value ≤ a.value
  below : ∀ e, parseIP rangeEnd = some e → a.value ≤ e.value
  host : a.value ≠ ipnet.addr.value
  unused : ∀ u ∈ used, u.value ≠ a.value

section
variable {ipnet : IPNet} {invalid outside : IpamError} {bound rangeStart rangeEnd : Text} {used : List Addr}

variable {a : Addr}

theorem Within.contains (within : Within ipnet bound) (read : parseIP bound = some a) : ipnet.contains a = true := by
  rcases within with rfl | ⟨b, same, inside⟩
  · rw [parseIP_nil] at read
    cases read
  · rw [read] at same
    rwa [Option.some.inj same]

theorem rangeBound_within (within : Within ipnet bound) :
    rangeBound ipnet invalid outside bound = .ok (parseIP bound) := by
  by_cases empty : bound = []
  · rw [rangeBound, if_pos empty, empty, parseIP_nil]
  · obtain ⟨a, read, inside⟩ := within.resolve_left empty
    rw [rangeBound, if_neg empty, read]
    exact if_pos inside

theorem rangeBound_not_within (out : ¬ Within ipnet bound) :
    rangeBound ipnet invalid outside bound = .error invalid ∨
      rangeBound ipnet invalid outside bound = .error outside := by
  rw [Within, not_or] at out
  rw [rangeBound, if_neg out.1]
  cases read : parseIP bound with
  | none => exact .inl rfl
  | some a => exact .inr (if_neg fun inside => out.2 ⟨a, read, inside⟩)

theorem free_iff_ahead {start : Addr} (first : (parseIP rangeStart).getD ipnet.addr = start)
    {high : Nat} (block : Block ipnet high) (a : Addr) :
    Ahead ipnet (parseIP rangeEnd) (used.map Addr.toText) start.value a ↔ Free ipnet rangeStart rangeEnd used a := by
  have unused : a.toText ∉ used.map Addr.toText ↔ ∀ u ∈ used, u.value ≠ a.value := by
    rw [List.mem_map, not_exists]
    refine forall_congr' fun u => ?_
    rw [not_and, Addr.toText_eq_iff]
  have above : ipnet.contains a = true →
      (start.value ≤ a.value ↔ ∀ s, parseIP rangeStart = some s → s.value ≤ a.value) := by
    intro inside
    rw [← first]
    cases parseIP rangeStart with
    | none => exact iff_of_true ((block.contains_iff a).mp inside).1 nofun
    | some s => simp
  constructor
  · rintro ⟨inside, from', below, host, free⟩
    exact ⟨inside, (above inside).mp from', below, host, unused.mp free⟩
  · rintro ⟨inside, from', below, host, free⟩
    exact ⟨inside, (above inside).mpr from', below, host, unused.mpr free⟩

theorem bitLen_of_contains (inside : ipnet.contains a = true) : a.to4.bitLen = ipnet.addr.to4.bitLen := by
  rw [IPNet.contains_iff] at inside
  cases four : a.to4 <;> cases six : ipnet.addr.to4 <;> rw [four, six] at inside <;> first | rfl | cases inside

/-- Of an address that is no other form of one of version 4, the network is not either. -/
theorem bitLen_of_apart {cidr : Text} {ip : Addr} (read : parseCIDR cidr = some (ip, ipnet)) (apart : Apart ipnet) :
    ip.to4.bitLen = ipnet.addr.to4.bitLen := by
  obtain ⟨_, whole⟩ := parseCIDR_net read
  have addr : ipnet.addr = ip.mask ipnet.ones := congrArg IPNet.addr whole
  cases ip with
  | v4 a => rw [addr]; rfl
  | v6 a =>
    have plain : a.toNat / 2 ^ 32 ≠ 0xffff := fun mapped => apart _ addr a mapped rfl
    have base : (mask ipnet.ones a).toNat / 2 ^ 32 ≠ 0xffff := fun mapped =>
      apart _ addr _ mapped (mask_mask_of_le le_rfl a)
    rw [addr, Addr.mask, Addr.to4_of_not_mapped plain, Addr.to4_of_not_mapped base]
    rfl

/-- What is found is a host of the network that is not in use, whatever the network. -/
theorem scan_found {last : Option Addr} {taken : List Text} (found : scan ipnet last taken fuel cur = some (some a)) :
    ipnet.contains a = true ∧ a.value ≠ ipnet.addr.value ∧ a.toText ∉ taken := by
  induction fuel generalizing cur with
  | zero => cases found
  | succ fuel ih =>
    rw [scan] at found
    split at found
    · rename_i contained
      split at found
      · cases found
      · split at found
        · exact ih found
        · rename_i base
          split at found
          · rename_i free
            cases found
            exact ⟨contained, fun same => base (Addr.equal_iff.mpr same), free⟩
          · exact ih found
    · cases found

theorem scan_mono {last : Option Addr} {taken : List Text} {more : Nat} {r : Option Addr}
    (found : scan ipnet last taken fuel cur = some r) (le : fuel ≤ more) : scan ipnet last taken more cur = some r := by
  induction fuel generalizing cur more with
  | zero => cases found
  | succ fuel ih =>
    obtain ⟨more, rfl⟩ : ∃ n, more = n + 1 := ⟨more - 1, by omega⟩
    have next : ∀ {cur}, scan ipnet last taken fuel cur = some r → scan ipnet last taken more cur = some r :=
      fun found => ih found (by omega)
    rw [scan] at found ⊢
    split at found
    · rename_i contained
      rw [if_pos contained]
      split at found
      · rename_i past
        rwa [if_pos past]
      · rename_i past
        rw [if_neg past]
        split at found
        · rename_i base
          rw [if_pos base]
          exact next found
        · rename_i base
          rw [if_neg base]
          split at found
          · rename_i free
            rwa [if_pos free]
          · rename_i free
            rw [if_neg free]
            exact next found
    · rename_i outside
      rwa [if_neg outside]

end

/-- What is known of an address that is given out. -/
structure Chosen (ipnet : IPNet) (rangeStart rangeEnd : Text) (used : List Addr) (a : Addr) : Prop where
  inside : ipnet.contains a = true
  host : a.value ≠ ipnet.addr.value
  unused : ∀ u ∈ used, u.value ≠ a.value
  least : 1 ≤ ipnet.ones → Apart ipnet →
    Free ipnet rangeStart rangeEnd used a ∧ ∀ b, Free ipnet rangeStart rangeEnd used b → a.value ≤ b.value

/-- An address that cannot be the one to be given out: it is no host of the network,
or in use, or outside the range, or a smaller one is free. -/
def Passed (ipnet : IPNet) (rangeStart rangeEnd : Text) (used : List Addr) (b : Addr) : Prop :=
  ipnet.contains b = false ∨ b.value = ipnet.addr.value ∨ (∃ u ∈ used, u.value = b.value) ∨
    1 ≤ ipnet.ones ∧ Apart ipnet ∧
      (Free ipnet rangeStart rangeEnd used b → ∃ c, Free ipnet rangeStart rangeEnd used c ∧ c.value < b.value)

section
variable {ipnet : IPNet} {rangeStart rangeEnd : Text} {used : List Addr} {a b : Addr}

theorem contains_congr (same : a.value = b.value) : ipnet.contains a = ipnet.contains b := by
  rw [Bool.eq_iff_iff, IPNet.contains_iff, IPNet.contains_iff, Addr.to4_eq_iff.mpr same]

theorem Free.congr (free : Free ipnet rangeStart rangeEnd used a) (same : a.value = b.value) :
    Free ipnet rangeStart rangeEnd used b := by
  obtain ⟨inside, above, below, host, unused⟩ := free
  rw [contains_congr same] at inside
  rw [same] at above below host unused
  exact ⟨inside, above, below, host, unused⟩

theorem Chosen.ne_of_passed (chosen : Chosen ipnet rangeStart rangeEnd used a)
    (passed : Passed ipnet rangeStart rangeEnd used b) : b.value ≠ a.value := by
  intro same
  rcases passed with outside | base | ⟨u, taken, equal⟩ | ⟨long, apart, smaller⟩
  · rw [contains_congr same, chosen.inside] at outside
    cases outside
  · exact chosen.host (same ▸ base)
  · exact chosen.unused u taken (equal.trans same)
  · obtain ⟨free, least⟩ := chosen.least long apart
    obtain ⟨c, freeC, less⟩ := smaller (free.congr same.symm)
    exact absurd (least c freeC) (by omega)

theorem Chosen.passed_iff (chosen : Chosen ipnet rangeStart rangeEnd used a) (long : 1 ≤ ipnet.ones)
    (apart : Apart ipnet) : Passed ipnet rangeStart rangeEnd used b ↔ b.value ≠ a.value := by
  refine ⟨chosen.ne_of_passed, fun other => .inr (.inr (.inr ⟨long, apart, fun free => ?_⟩))⟩
  obtain ⟨freeA, least⟩ := chosen.least long apart
  exact ⟨a, freeA, lt_of_le_of_ne (least b free) other.symm⟩

theorem contains_rangeStart (low : Within ipnet rangeStart) :
    ipnet.contains ((parseIP rangeStart).getD ipnet.addr) = true := by
  cases start : parseIP rangeStart with
  | none => exact ipnet.contains_self
  | some s => exact low.contains start

variable {cidr : Text} {ip : Addr}

theorem nextFreeIPInRange_eq_scan (read : parseCIDR cidr = some (ip, ipnet)) (low : Within ipnet rangeStart)
    (up : Within ipnet rangeEnd) (fuel : Nat) (taken : List Text) : nextFreeIPInRange fuel cidr rangeStart rangeEnd taken =
      (scan ipnet (parseIP rangeEnd) taken fuel ((parseIP rangeStart).getD ipnet.addr)).map
        (answer ipnet.addr.to4.bitLen (.noFreeAddress cidr (some (rangeStart, rangeEnd)))) := by
  rw [nextFreeIPInRange, read]
  dsimp only
  rw [rangeBound_within low]
  dsimp only
  rw [rangeBound_within up]

theorem nextFreeIPInRange_outside (read : parseCIDR cidr = some (ip, ipnet))
    (out : ¬ Within ipnet rangeStart ∨ ¬ Within ipnet rangeEnd) (fuel : Nat) (taken : List Text) :
    ∃ e, nextFreeIPInRange fuel cidr rangeStart rangeEnd taken = some (.error e) := by
  rw [nextFreeIPInRange, read]
  dsimp only
  by_cases low : Within ipnet rangeStart
  · have high := out.resolve_left (not_not.mpr low)
    rw [rangeBound_within low]
    dsimp only
    rcases rangeBound_not_within high with failed | failed <;> rw [failed] <;> exact ⟨_, rfl⟩
  · rcases rangeBound_not_within low with failed | failed <;> rw [failed] <;> exact ⟨_, rfl⟩

theorem scan_free (read : parseCIDR cidr = some (ip, ipnet)) (long : 1 ≤ ipnet.ones) (apart : Apart ipnet)
    (low : Within ipnet rangeStart) (rangeEnd : Text) (used : List Addr) : ∃ enough, ∀ fuel ≥ enough, ∃ r,
      scan ipnet (parseIP rangeEnd) (used.map Addr.toText) fuel ((parseIP rangeStart).getD ipnet.addr) = some r ∧
        IsLeast (Free ipnet rangeStart rangeEnd used) r := by
  obtain ⟨high, block⟩ := block_of_parseCIDR read long apart
  refine ⟨high + 2, fun fuel enough => ?_⟩
  obtain ⟨r, found, least⟩ := scan_least block (contains_rangeStart low) (Nat.le_add_right_of_le enough)
  exact ⟨r, found, least.congr (free_iff_ahead rfl block)⟩

/-- However long the search may take: what it gives out was to be given out. -/
theorem nextFreeIPInRange_chosen {text : Text}
    (found : nextFreeIPInRange fuel cidr rangeStart rangeEnd (used.map Addr.toText) = some (.ok text)) :
    ∃ ip ipnet a, parseCIDR cidr = some (ip, ipnet) ∧ text = Addr.hostText a ∧
      Chosen ipnet rangeStart rangeEnd used a := by
  cases read : parseCIDR cidr with
  | none => simp [nextFreeIPInRange, read] at found
  | some result =>
    obtain ⟨ip, ipnet⟩ := result
    by_cases within : Within ipnet rangeStart ∧ Within ipnet rangeEnd
    · obtain ⟨low, up⟩ := within
      rw [nextFreeIPInRange_eq_scan read low up] at found
      obtain ⟨r, scanned, answered⟩ := Option.map_eq_some_iff.mp found
      cases r with
      | none => cases answered
      | some a =>
        obtain ⟨inside, host, free⟩ := scan_found scanned
        refine ⟨ip, ipnet, a, rfl, ?_, inside, host, fun u taken same => ?_, fun long apart => ?_⟩
        · rw [Addr.hostText, bitLen_of_contains inside]
          exact (Except.ok.inj answered).symm
        · exact free (List.mem_map.mpr ⟨u, taken, Addr.toText_eq_of_value same⟩)
        · obtain ⟨enough, finds⟩ := scan_free read long apart low rangeEnd used
          obtain ⟨r, again, least⟩ := finds (max enough fuel) (le_max_left _ _)
          rw [scan_mono scanned (le_max_right _ _)] at again
          rw [← Option.some.inj again] at least
          exact least
    · obtain ⟨e, failed⟩ := nextFreeIPInRange_outside read (not_and_or.mp within) fuel (used.map Addr.toText)
      rw [failed] at found
      cases found

end

/-- The search gives out the least free address of the range, and an error
exactly if there is none. -/
theorem nextFreeIPInRange_exact {cidr : Text} {ip : Addr} {ipnet : IPNet} (read : parseCIDR cidr = some (ip, ipnet))
    (long : 1 ≤ ipnet.ones) (apart : Apart ipnet) (rangeStart rangeEnd : Text) (used : List Addr) :
    (Within ipnet rangeStart → Within ipnet rangeEnd → ∃ enough, ∀ fuel ≥ enough, ∃ r,
      nextFreeIPInRange fuel cidr rangeStart rangeEnd (used.map Addr.toText) = some r ∧
        ((∃ a, r = .ok a.hostText ∧ Free ipnet rangeStart rangeEnd used a ∧
            ∀ b, Free ipnet rangeStart rangeEnd used b → a.value ≤ b.value) ∨
          (∃ e, r = .error e) ∧ ∀ a, ¬ Free ipnet rangeStart rangeEnd used a)) ∧
    (¬ Within ipnet rangeStart ∨ ¬ Within ipnet rangeEnd → ∀ fuel, ∃ e,
      nextFreeIPInRange fuel cidr rangeStart rangeEnd (used.map Addr.toText) = some (.error e)) ∧
    ∀ fuel, (nextFreeIPInRange fuel cidr [] [] (used.map Addr.toText)).map Except.toOption =
      (nextFreeIP fuel cidr (used.map Addr.toText)).map Except.toOption := by
  refine ⟨fun low up => ?_, fun out fuel => ?_, fun fuel => ?_⟩
  · obtain ⟨enough, finds⟩ := scan_free read long apart low rangeEnd used
    refine ⟨enough, fun fuel more => ?_⟩
    obtain ⟨r, found, least⟩ := finds fuel more
    rw [nextFreeIPInRange_eq_scan read low up, found]
    refine ⟨_, rfl, ?_⟩
    cases r with
    | none => exact .inr ⟨⟨_, rfl⟩, least⟩
    | some a =>
      refine .inl ⟨a, ?_, least⟩
      rw [answer, Addr.hostText, bitLen_of_contains least.1.inside]
  · exact nextFreeIPInRange_outside read out fuel _
  · rw [nextFreeIPInRange_eq_scan read (.inl rfl) (.inl rfl), nextFreeIP, read, parseIP_nil]
    dsimp only [Option.getD_none]
    rw [Option.map_map, Option.map_map, bitLen_of_apart read apart]
    congr 1
    funext found
    cases found <;> rfl

def smallNet : IPNet := ⟨.v4 0x0a000000#32, 30⟩

/-- In 10.0.0.0/30, from 10.0.0.1 on, with 10.0.0.1 in use. -/
theorem nextFreeIPInRange_exact_sample :
    parseCIDR "10.0.0.0/30".toList = some (.v4 0x0a000000#32, smallNet) ∧ 1 ≤ smallNet.ones ∧ Apart smallNet ∧
    ∃ enough, ∀ fuel ≥ enough, ∃ r,
      nextFreeIPInRange fuel "10.0.0.0/30".toList "10.0.0.1".toList [] [(Addr.v4 0x0a000001#32).toText] = some r ∧
        ((∃ a, r = .ok a.hostText ∧ Free smallNet "10.0.0.1".toList [] [.v4 0x0a000001#32] a ∧
            ∀ b, Free smallNet "10.0.0.1".toList [] [.v4 0x0a000001#32] b → a.value ≤ b.value) ∨
          (∃ e, r = .error e) ∧ ∀ a, ¬ Free smallNet "10.0.0.1".toList [] [.v4 0x0a000001#32] a) := by
  have read : parseCIDR "10.0.0.0/30".toList = some (.v4 0x0a000000#32, smallNet) := by decide +kernel
  have apart : Apart smallNet := fun _ six => by cases six
  have within : Within smallNet "10.0.0.1".toList :=
    .inr ⟨.v6 (Addr.v4 0x0a000001#32).to16, by decide +kernel, by decide +kernel⟩
  refine ⟨read, by decide, apart, ?_⟩
  exact (nextFreeIPInRange_exact read (by decide) apart _ [] [.v4 0x0a000001#32]).1 within (.inl rfl)

example : nextFreeIPInRange 4 "10.0.0.0/30".toList "10.0.0.1".toList [] ["10.0.0.1".toList] =
    some (.ok "10.0.0.2/32".toList) := by decide +kernel

end Protean.Vpn
