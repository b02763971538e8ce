import Protean.Netfilter.Syntax

namespace Netfilter

/-- The four bytes of an address, as they are printed. -/
def octets (a : Addr) : List Nat :=
  [a.toNat / 16777216 % 256, a.toNat / 65536 % 256, a.toNat / 256 % 256, a.toNat % 256]

def addrText (a : Addr) : Text := ['.'].intercalate ((octets a).map Text.decimal)

/-- A network is printed with its length. -/
def cidrText (c : Cidr) : Text := addrText c.addr ++ '/' :: Text.decimal c.len

theorem readOctet_decimal {n : Nat} (byte : n < 256) : readOctet (Text.decimal n) = some n := by
  simp [readOctet, Text.readNumber_decimal, byte]

theorem addrOf_octets (a : Addr) :
    addrOf (a.toNat / 16777216 % 256) (a.toNat / 65536 % 256) (a.toNat / 256 % 256) (a.toNat % 256) = a := by
  have bounded := a.isLt
  apply BitVec.eq_of_toNat_eq
  rw [addrOf, BitVec.toNat_ofNat]
  omega

theorem splitOn_addrText (a : Addr) : (addrText a).splitOn '.' = (octets a).map Text.decimal := by
  refine List.splitOn_intercalate '.' ?_ (by simp [octets])
  intro t member
  obtain ⟨n, -, rfl⟩ := List.mem_map.mp member
  intro dot
  exact absurd (Text.isDigit_of_mem_decimal dot) (by decide)

theorem readAddr_addrText (a : Addr) : readAddr (addrText a) = some a := by
  have byte : ∀ n : Nat, n % 256 < 256 := by intro n; omega
  rw [readAddr, splitOn_addrText]
  simp only [octets, List.map_cons, List.map_nil, readOctet_decimal (byte _)]
  exact congrArg some (addrOf_octets a)

theorem addrText_injective : Function.Injective addrText := by
  intro a b same
  have read := congrArg readAddr same
  rw [readAddr_addrText, readAddr_addrText] at read
  exact Option.some.inj read

/-- An address is printed with digits and dots. -/
theorem addrText_chars (a : Addr) : ∀ c ∈ addrText a, c.isDigit ∨ c = '.' := by
  intro c member
  by_cases dot : c = '.'
  · exact .inr dot
  · obtain ⟨part, listed, inside⟩ := (Text.mem_intercalate dot _).mp member
    obtain ⟨n, -, rfl⟩ := List.mem_map.mp listed
    exact .inl (Text.isDigit_of_mem_decimal inside)

theorem addrText_noSlash (a : Addr) : '/' ∉ addrText a := by
  intro member
  have chars := addrText_chars a _ member
  revert chars
  decide

theorem readCidr_addrText (a : Addr) {len : Nat} (bounded : len ≤ 32) :
    readCidr (addrText a ++ '/' :: Text.decimal len) = some (Cidr.mk' a len bounded) := by
  have noSlash : '/' ∉ Text.decimal len := by
    intro member
    exact absurd (Text.isDigit_of_mem_decimal member) (by decide)
  have parts : (addrText a ++ '/' :: Text.decimal len).splitOn '/' = [addrText a, Text.decimal len] := by
    have joined : addrText a ++ '/' :: Text.decimal len = ['/'].intercalate [addrText a, Text.decimal len] := by
      simp [List.intercalate]
    rw [joined]
    exact List.splitOn_intercalate '/' (by simp [addrText_noSlash, noSlash]) (by simp)
  rw [readCidr, parts]
  simp [readAddr_addrText, Text.readNumber_decimal, bounded]

theorem readCidr_cidrText (c : Cidr) : readCidr (cidrText c) = some c := by
  obtain ⟨addr, len, bounded, masked⟩ := c
  rw [cidrText, readCidr_addrText addr bounded]
  simp [Cidr.mk', masked]

end Netfilter
