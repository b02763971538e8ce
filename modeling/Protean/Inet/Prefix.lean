import Protean.Inet

namespace Inet

section
variable {w p q : Nat}

theorem getLsbD_mask (a : BitVec w) (i : Nat) : (mask p a).getLsbD i = (a.getLsbD i && decide (w - p ≤ i)) := by
  by_cases low : i < w
  · simp only [mask, BitVec.getLsbD_and, BitVec.getLsbD_shiftLeft, BitVec.getLsbD_allOnes, low, decide_true,
      Bool.true_and]
    by_cases high : w - p ≤ i
    · have short : i - (w - p) < w := by omega
      simp [high, short]
    · simp [high]
  · rw [BitVec.getLsbD_of_ge _ _ (by omega), BitVec.getLsbD_of_ge _ _ (by omega), Bool.false_and]

/-- The shorter of two masks decides. -/
theorem mask_mask_of_le (le : p ≤ q) (a : BitVec w) : mask p (mask q a) = mask p a := by
  refine BitVec.eq_of_getLsbD_eq fun i _ => ?_
  rw [getLsbD_mask, getLsbD_mask, getLsbD_mask]
  by_cases high : w - p ≤ i
  · have higher : w - q ≤ i := by omega
    simp [high, higher]
  · simp [high]

theorem toNat_mask (a : BitVec w) : (mask p a).toNat = a.toNat / 2 ^ (w - p) * 2 ^ (w - p) := by
  refine Nat.eq_of_testBit_eq fun i => ?_
  rw [BitVec.testBit_toNat, getLsbD_mask, Nat.testBit_mul_two_pow, Nat.testBit_div_two_pow, BitVec.testBit_toNat]
  by_cases high : w - p ≤ i
  · rw [Nat.sub_add_cancel high, Bool.and_comm]
  · simp [high]

/-- A prefix is a block of consecutive numbers. -/
theorem mask_eq_mask_iff {a b : BitVec w} :
    mask p a = mask p b ↔ a.toNat / 2 ^ (w - p) = b.toNat / 2 ^ (w - p) := by
  rw [BitVec.toNat_eq, toNat_mask, toNat_mask]
  exact Nat.mul_left_inj (Nat.two_pow_pos _).ne'

/-- The block begins at the masked number and is as long as the mask leaves bits. -/
theorem mask_eq_mask_iff_block {a b : BitVec w} :
    mask p (mask p a) = mask p b ↔ (mask p a).toNat ≤ b.toNat ∧ b.toNat < (mask p a).toNat + 2 ^ (w - p) := by
  have positive := Nat.two_pow_pos (w - p)
  rw [mask_mask_of_le le_rfl, mask_eq_mask_iff, toNat_mask, eq_comm, Nat.div_eq_iff positive]
  generalize a.toNat / 2 ^ (w - p) * 2 ^ (w - p) = base
  omega

/-- A longer mask tells numbers apart that a shorter one does not. -/
theorem exists_mask_ne (longer : p < q) (short : q ≤ w) (a : BitVec w) :
    ∃ b : BitVec w, mask p a = mask p b ∧ mask q a ≠ mask q b := by
  -- the last bit under the longer mask, the other way around
  refine ⟨a ^^^ BitVec.twoPow w (w - q), BitVec.eq_of_getLsbD_eq fun i _ => ?_, fun same => ?_⟩
  · rw [getLsbD_mask, getLsbD_mask, BitVec.getLsbD_xor, BitVec.getLsbD_twoPow]
    by_cases high : w - p ≤ i
    · have other : ¬ (w - q = i) := by omega
      simp [other]
    · simp [high]
  · have bit := congrArg (fun b => b.getLsbD (w - q)) same
    have low : w - q < w := by omega
    simp only [getLsbD_mask, BitVec.getLsbD_xor, BitVec.getLsbD_twoPow, low] at bit
    simp at bit

theorem toNat_mask_add_le (short : p ≤ w) (a : BitVec w) : (mask p a).toNat + 2 ^ (w - p) ≤ 2 ^ w := by
  have whole : 2 ^ w = 2 ^ p * 2 ^ (w - p) := by rw [← Nat.pow_add, Nat.add_sub_cancel' short]
  have below : a.toNat / 2 ^ (w - p) < 2 ^ p := by
    rw [Nat.div_lt_iff_lt_mul (Nat.two_pow_pos _), ← whole]
    exact a.isLt
  rw [toNat_mask, ← Nat.add_one_mul, whole]
  exact Nat.mul_le_mul_right _ below

end

theorem Addr.mask_mask_of_le {p q : Nat} (le : p ≤ q) (a : Addr) : (a.mask q).mask p = a.mask p := by
  cases a with
  | v4 a => exact congrArg Addr.v4 (Inet.mask_mask_of_le le a)
  | v6 a => exact congrArg Addr.v6 (Inet.mask_mask_of_le le a)

theorem Addr.to4_of_mapped {a : BitVec 128} (mapped : a.toNat / 2 ^ 32 = 0xffff) :
    (Addr.v6 a).to4 = .v4 (.ofNat 32 a.toNat) := if_pos mapped

theorem Addr.to4_of_not_mapped {a : BitVec 128} (other : a.toNat / 2 ^ 32 ≠ 0xffff) : (Addr.v6 a).to4 = .v6 a :=
  if_neg other

namespace IPNet

variable {n m : IPNet} {a : Addr}

theorem to4_addr (n : IPNet) : n.to4.addr = n.addr.to4 := by
  obtain ⟨addr, ones⟩ := n
  cases addr with
  | v4 a => rfl
  | v6 a =>
    unfold IPNet.to4
    dsimp only
    by_cases mapped : a.toNat / 2 ^ 32 = 0xffff
    · rw [Addr.to4_of_mapped mapped]
    · rw [Addr.to4_of_not_mapped mapped]

theorem contains_iff : n.contains a = true ↔ n.addr.to4.mask n.to4.ones = a.to4.mask n.to4.ones := by
  rw [contains, ← to4_addr]
  cases n.to4.addr <;> cases a.to4 <;> simp [Addr.mask]

theorem contains_self (n : IPNet) : n.contains n.addr = true := contains_iff.mpr rfl

/-- Of two networks with an address in common, the one with the shorter prefix
contains the other's base. -/
theorem contains_of_common (shorter : n.to4.ones ≤ m.to4.ones) (inN : n.contains a = true)
    (inM : m.contains a = true) : n.contains m.addr = true := by
  rw [contains_iff] at inN inM ⊢
  calc n.addr.to4.mask n.to4.ones
      = (a.to4.mask m.to4.ones).mask n.to4.ones := by rw [inN, Addr.mask_mask_of_le shorter]
    _ = m.addr.to4.mask n.to4.ones := by rw [← inM, Addr.mask_mask_of_le shorter]

end IPNet

end Inet
