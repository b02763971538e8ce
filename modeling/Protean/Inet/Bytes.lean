import Protean.Inet.RoundTrip

/- Addresses as the byte slices that `net.IP` is made of: four bytes or sixteen. -/
namespace Inet

/-- `To16`: an address of version 4 in its place among those of version 6. -/
def Addr.to16 : Addr → BitVec 128
  | .v4 a => .ofNat 128 (0xffff * 2 ^ 32 + a.toNat)
  | .v6 a => a

def Addr.value (a : Addr) : Nat := a.to16.toNat

/-- `net.ParseIP` always gives sixteen bytes. -/
def parseIP (t : Text) : Option Addr := (parseAddr t).map fun a => .v6 a.to16

/-- The same address, in four bytes or in sixteen. -/
def Addr.equal (a b : Addr) : Bool := a.to16 = b.to16

/-- The last byte first. -/
def bytesLE : Nat → Nat → List UInt8
  | 0, _ => []
  | k + 1, n => UInt8.ofNat n :: bytesLE k (n / 256)

def ofBytesLE (bs : List UInt8) : Nat := bs.foldr (fun b n => b.toNat + 256 * n) 0

def Addr.bytes : Addr → List UInt8
  | .v4 a => (bytesLE 4 a.toNat).reverse
  | .v6 a => (bytesLE 16 a.toNat).reverse

def Addr.ofBytes (bs : List UInt8) : Addr :=
  if bs.length = 4 then .v4 (.ofNat 32 (ofBytesLE bs.reverse)) else .v6 (.ofNat 128 (ofBytesLE bs.reverse))

theorem length_bytesLE (k n : Nat) : (bytesLE k n).length = k := by
  induction k generalizing n with
  | zero => rfl
  | succ k ih => rw [bytesLE, List.length_cons, ih]

theorem ofBytesLE_bytesLE (k n : Nat) : ofBytesLE (bytesLE k n) = n % 256 ^ k := by
  induction k generalizing n with
  | zero => rw [Nat.pow_zero, Nat.mod_one]; rfl
  | succ k ih =>
    rw [bytesLE]
    change (UInt8.ofNat n).toNat + 256 * ofBytesLE (bytesLE k (n / 256)) = _
    have power : 256 ^ (k + 1) = 256 * 256 ^ k := Nat.pow_succ'
    rw [ih, UInt8.toNat_ofNat', power, Nat.mod_mul]

theorem value_v4 (a : BitVec 32) : (Addr.v4 a).value = 0xffff * 2 ^ 32 + a.toNat := by
  have bound := a.isLt
  rw [Addr.value, Addr.to16, BitVec.toNat_ofNat, Nat.mod_eq_of_lt (by omega)]

theorem value_v6 (a : BitVec 128) : (Addr.v6 a).value = a.toNat := rfl

/-- An address stands where it does in either form. -/
theorem Addr.value_to4 (a : Addr) : a.to4.value = a.value := by
  cases a with
  | v4 a => rfl
  | v6 a =>
    by_cases mapped : a.toNat / 2 ^ 32 = 0xffff
    · rw [Addr.to4_of_mapped mapped, value_v4, value_v6, BitVec.toNat_ofNat]
      omega
    · rw [Addr.to4_of_not_mapped mapped]

theorem Addr.to4_eq_iff {a b : Addr} : a.to4 = b.to4 ↔ a.value = b.value := by
  constructor
  · intro same
    rw [← a.value_to4, ← b.value_to4, same]
  · intro same
    have known : ∀ c : Addr, c.to4 = (Addr.v6 c.to16).to4 := by
      intro c
      cases c with
      | v6 c => rfl
      | v4 c =>
        have value := value_v4 c
        have bound := c.isLt
        rw [Addr.value] at value
        rw [Addr.to4_of_mapped (by rw [value]; omega), value, Addr.to4]
        refine congrArg Addr.v4 (BitVec.eq_of_toNat_eq ?_)
        rw [BitVec.toNat_ofNat]
        omega
    rw [known a, known b, BitVec.eq_of_toNat_eq same]

theorem Addr.to4_eq_v6 {a : Addr} {b : BitVec 128} (six : a.to4 = .v6 b) : a = .v6 b ∧ b.toNat / 2 ^ 32 ≠ 0xffff := by
  cases a with
  | v4 a => cases six
  | v6 c =>
    by_cases mapped : c.toNat / 2 ^ 32 = 0xffff
    · rw [Addr.to4_of_mapped mapped] at six
      cases six
    · rw [Addr.to4_of_not_mapped mapped] at six
      exact ⟨six, Addr.v6.inj six ▸ mapped⟩

theorem Addr.toText_eq_of_value {a b : Addr} (same : a.value = b.value) : a.toText = b.toText := by
  rw [Addr.toText, Addr.toText, Addr.to4_eq_iff.mpr same]

theorem Addr.toText_eq_iff {a b : Addr} : a.toText = b.toText ↔ a.value = b.value :=
  ⟨fun same => Addr.to4_eq_iff.mp (toText_inj same), Addr.toText_eq_of_value⟩

theorem Addr.equal_iff {a b : Addr} : a.equal b = true ↔ a.value = b.value := by
  rw [Addr.equal, decide_eq_true_iff, BitVec.toNat_eq]
  rfl

theorem parseIP_nil : parseIP [] = none := by decide +kernel

end Inet
