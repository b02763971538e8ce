import Protean.Ikev2.Clients
import Protean.Inet.RoundTrip
import Protean.OpenVPN.Clients

namespace Protean.Cert
open Inet (Addr IPNet parseCIDR)

/-- The length of the prefix is not `32` for a network of version 6, and the one
of a host has no leading zeros. -/
def PlainPrefix (a : Text) : Prop :=
  ∀ addr len ip n, Text.cut '/' a = some (addr, len) → parseCIDR a = some (ip, n) →
    (ip.bitLen = 128 → len ≠ "32".toList) ∧ (n.isHost = true → len = Text.decimal n.ones)

/-- Both providers find the first host and all networks. -/
structure DividedByMeaning (allowed : List Text) : Prop where
  same : splitAllowedIPs allowed = splitClientAllowedIPs allowed
  address : (splitClientAllowedIPs allowed).1 = (allowed.find? isHost).getD []
  subnets : (splitClientAllowedIPs allowed).2 = allowed.filter fun a => !isHost a

/-- A client that was added is listed with every entry. -/
def KeptByOpenVPN (allowed : List Text) : Prop :=
  ∀ opts crypto env env' s name new s' peers,
    (OpenVPN.addPeer opts crypto env name allowed).exec s = (some new, s') →
      ((OpenVPN.listPeers env').exec s').1 = some peers →
        ∃ peer ∈ peers, peer.id = new.id ∧ ∀ a ∈ allowed, a ∈ peer.allowedIPs

def KeptByIkev2 (allowed : List Text) : Prop :=
  ∀ opts crypto env env' s name new s' peers,
    (Ikev2.addPeer opts crypto env name allowed).exec s = (some new, s') →
      ((Ikev2.listPeers env').exec s').1 = some peers →
        ∃ peer ∈ peers, peer.id = new.id ∧ ∀ a ∈ allowed, a ∈ peer.allowedIPs

section
variable {a addr len w : Text} {ip : Addr} {n : IPNet}

theorem isSuffixOf_slash_iff (single : '/' ∉ len) (plain : '/' ∉ w) :
    ('/' :: w).isSuffixOf (addr ++ '/' :: len) = true ↔ len = w := by
  rw [List.isSuffixOf_iff_suffix]
  constructor
  · rintro ⟨t, same⟩
    have cut : Text.cutLast '/' (addr ++ '/' :: len) = some (addr, len) := Text.cutLast_eq_some_iff.mpr ⟨rfl, single⟩
    rw [← same, Text.cutLast_eq_some_iff.mpr ⟨rfl, plain⟩] at cut
    exact (Prod.mk.inj (Option.some.inj cut)).2.symm
  · rintro rfl
    exact List.suffix_append addr _

theorem bitLen_mask (p : Nat) (ip : Addr) : (ip.mask p).bitLen = ip.bitLen := by cases ip <;> rfl

/-- A length that ends like the one of a host is the one of a host, and the other way round,
exactly if it is not of the other version and has no leading zeros. -/
theorem full_length_iff {bits ones : Nat} (width : bits = 32 ∨ bits = 128) (short : ones ≤ bits)
    (read32 : len = "32".toList → ones = 32) (read128 : len = "128".toList → ones = 128) :
    (len = "32".toList ∨ len = "128".toList ↔ ones = bits) ↔
      (bits = 128 → len ≠ "32".toList) ∧ (ones = bits → len = Text.decimal ones) := by
  rcases width with rfl | rfl
  · constructor
    · intro agree
      refine ⟨by omega, fun full => ?_⟩
      rcases agree.mpr full with text | text
      · rw [full, text]; rfl
      · have := read128 text; omega
    · rintro ⟨-, canonical⟩
      constructor
      · rintro (text | text)
        · exact read32 text
        · have := read128 text; omega
      · intro full
        exact .inl (by rw [canonical full, full]; rfl)
  · constructor
    · intro agree
      have other : len ≠ "32".toList := fun text => by
        have full := agree.mp (.inl text)
        have := read32 text
        omega
      refine ⟨fun _ => other, fun full => ?_⟩
      rcases agree.mpr full with text | text
      · exact absurd text other
      · rw [full, text]; rfl
    · rintro ⟨other, canonical⟩
      constructor
      · rintro (text | text)
        · exact absurd text (other rfl)
        · exact read128 text
      · intro full
        exact .inr (by rw [canonical full, full]; rfl)

/-- The two ways to find a host agree where the entry is written plainly. -/
theorem endsAsHost_eq_isHost_iff (read : parseCIDR a = some (ip, n)) : endsAsHost a = isHost a ↔ PlainPrefix a := by
  have host : isHost a = n.isHost := by rw [isHost, read]; rfl
  have parts := read
  simp only [parseCIDR, Option.bind_eq_bind, Option.bind_eq_some_iff] at parts
  obtain ⟨⟨addr, len⟩, cut, b, -, ones, length, made⟩ := parts
  dsimp only at length
  split at made
  case isFalse => cases made
  rename_i short
  obtain ⟨rfl, rfl⟩ := Prod.mk.inj (Option.some.inj made)
  obtain ⟨shape, -⟩ := Text.cut_eq_some_iff.mp cut
  have digits := Text.readDecimal_isDigit length
  have single : '/' ∉ len := fun slash => absurd (digits.2 '/' slash) (by decide)
  have ends : endsAsHost a = true ↔ len = "32".toList ∨ len = "128".toList := by
    rw [shape, endsAsHost, Bool.or_eq_true]
    exact or_congr (isSuffixOf_slash_iff single (by decide)) (isSuffixOf_slash_iff single (by decide))
  have whole : (IPNet.mk (b.mask ones) ones).isHost = true ↔ ones = b.bitLen := by
    rw [IPNet.isHost, decide_eq_true_iff, bitLen_mask]
  have plain : PlainPrefix a ↔ (b.bitLen = 128 → len ≠ "32".toList) ∧ (ones = b.bitLen → len = Text.decimal ones) := by
    constructor
    · intro plain
      have here := plain addr len b _ cut read
      rwa [whole] at here
    · intro here addr' len' ip' n' cut' read'
      rw [cut] at cut'
      rw [read] at read'
      cases cut'
      cases read'
      rwa [whole]
  have read32 : len = "32".toList → ones = 32 := by
    rintro rfl
    exact (Option.some.inj length).symm
  have read128 : len = "128".toList → ones = 128 := by
    rintro rfl
    exact (Option.some.inj length).symm
  rw [host, Bool.eq_iff_iff, ends, whole, plain]
  refine full_length_iff ?_ short read32 read128
  cases b with
  | v4 b => exact .inl rfl
  | v6 b => exact .inr rfl

end

section
variable {allowed : List Text} (valid : ∀ a ∈ allowed, (parseCIDR a).isSome)
include valid

theorem dividedByMeaning_iff : DividedByMeaning allowed ↔ ∀ a ∈ allowed, PlainPrefix a := by
  have agree : (∀ a ∈ allowed, PlainPrefix a) ↔ ∀ a ∈ allowed, endsAsHost a = isHost a := by
    refine forall_congr' fun a => forall_congr' fun inside => ?_
    obtain ⟨r, read⟩ := Option.isSome_iff_exists.mp (valid a inside)
    exact (endsAsHost_eq_isHost_iff read).symm
  have meaning := splitClientAllowedIPs_eq valid
  rw [agree]
  constructor
  · intro divided a inside
    -- what one of them takes for a network the other does too
    have networks : (allowed.filter fun a => !endsAsHost a) = allowed.filter fun a => !isHost a := by
      have same := congrArg Prod.snd divided.same
      rwa [splitAllowedIPs_eq, meaning] at same
    have member : (a ∈ allowed.filter fun a => !endsAsHost a) ↔ a ∈ allowed.filter fun a => !isHost a := by rw [networks]
    simp only [List.mem_filter, inside, true_and, Bool.not_eq_true'] at member
    cases h : endsAsHost a <;> cases h' : isHost a <;> simp_all
  · intro same
    have found : allowed.find? endsAsHost = allowed.find? isHost := by
      rw [← List.head?_filter, ← List.head?_filter, List.filter_congr same]
    have networks : (allowed.filter fun a => !endsAsHost a) = allowed.filter fun a => !isHost a :=
      List.filter_congr fun a inside => by rw [same a inside]
    exact ⟨by rw [splitAllowedIPs_eq, meaning, found, networks], by rw [meaning], by rw [meaning]⟩

end

section
variable {allowed : List Text}

/-- What is shown of a row has all that is in it. -/
theorem OpenVPN.mem_shownPeer {online : List OpenVPN.ConnectedClient} {cn a : Text} {row : OpenVPN.Client}
    (inside : a ∈ listedIPs row.address row.subnets) : a ∈ (OpenVPN.shownPeer online cn row).allowedIPs := by
  have some' : listedIPs row.address row.subnets ≠ [] := List.ne_nil_of_mem inside
  unfold OpenVPN.shownPeer
  split
  · exact inside
  · dsimp only
    rwa [if_neg (by simp [some'])]

theorem Ikev2.mem_shownPeer {online : List Ikev2.ActiveSA} {cn a : Text} {row : Ikev2.Client}
    (inside : a ∈ listedIPs row.address row.subnets) : a ∈ (Ikev2.shownPeer online cn row).allowedIPs := by
  have some' : listedIPs row.address row.subnets ≠ [] := List.ne_nil_of_mem inside
  unfold Ikev2.shownPeer
  split
  · exact inside
  · dsimp only
    rwa [if_neg (by simp [some'])]

theorem OpenVPN.id_shownPeer (online : List OpenVPN.ConnectedClient) (cn : Text) (row : OpenVPN.Client) :
    (OpenVPN.shownPeer online cn row).id = cn := by
  unfold OpenVPN.shownPeer
  split <;> rfl

theorem Ikev2.id_shownPeer (online : List Ikev2.ActiveSA) (cn : Text) (row : Ikev2.Client) :
    (Ikev2.shownPeer online cn row).id = cn := by
  unfold Ikev2.shownPeer
  split <;> rfl

/-- A client on record is among those that are listed. -/
theorem mem_listed {κ ρ : Type} [DecidableEq κ] {t : KeyTable κ ρ} {k : κ} {row : ρ} {listClients : Bool}
    {show' : κ × ρ → Peer} {peers : List Peer} (there : t.get k = some row)
    (listed : (if listClients then some (t.rows.map show') else none) = some peers) : show' (k, row) ∈ peers := by
  split at listed
  · rw [← Option.some.inj listed]
    exact List.mem_map_of_mem (KeyTable.get_eq_some_iff.mp there)
  · cases listed

theorem keptByOpenVPN_iff :
    KeptByOpenVPN allowed ↔ ∀ a ∈ allowed,
      a ∈ listedIPs (splitClientAllowedIPs allowed).1 ([','].intercalate (splitClientAllowedIPs allowed).2) := by
  constructor
  · intro kept
    obtain ⟨peer, inside, -, all⟩ := kept ⟨[], []⟩ sampleCrypto { ca := some ⟨[], []⟩ } {} ⟨KeyTable.empty, fun _ => none, []⟩
      "c".toList _ _ _ rfl rfl
    rw [List.mem_singleton.mp inside] at all
    exact all
  · intro all opts crypto env env' s name new s' peers added listed
    obtain ⟨certPEM, key, row⟩ := (OpenVPN.addPeer_row s trivial).1 new s' added
    refine ⟨_, mem_listed row listed, OpenVPN.id_shownPeer _ _ _, fun a inside => ?_⟩
    exact OpenVPN.mem_shownPeer (all a inside)

theorem keptByIkev2_iff :
    KeptByIkev2 allowed ↔ ∀ a ∈ allowed,
      a ∈ listedIPs (splitAllowedIPs allowed).1 ([','].intercalate (splitAllowedIPs allowed).2) := by
  constructor
  · intro kept
    obtain ⟨peer, inside, -, all⟩ := kept ⟨[], [], [], []⟩ sampleCrypto { ca := some ⟨[], []⟩, randPassword := some [] } {}
      Ikev2.State.initial "c".toList _ _ _ rfl rfl
    rw [List.mem_singleton.mp inside] at all
    exact all
  · intro all opts crypto env env' s name new s' peers added listed
    obtain ⟨certPEM, key, p12pass, row⟩ := (Ikev2.addPeer_row s trivial).1 new s' added
    refine ⟨_, mem_listed row listed, Ikev2.id_shownPeer _ _ _, fun a inside => ?_⟩
    exact Ikev2.mem_shownPeer (all a inside)

/-- All entries come back if there is one host at most. -/
theorem listed_iff (valid : ∀ a ∈ allowed, (parseCIDR a).isSome) (host : Text → Bool) :
    (∀ a ∈ allowed, a ∈ listedIPs ((allowed.find? host).getD []) ([','].intercalate (allowed.filter fun b => !host b))) ↔
      ∀ a ∈ allowed, ∀ b ∈ allowed, host a = true → host b = true → a = b := by
  simp only [mem_listedIPs valid host]
  constructor
  · intro all a first b second hostA hostB
    have foundA := (all a first).resolve_right fun other => by rw [other.2] at hostA; cases hostA
    have foundB := (all b second).resolve_right fun other => by rw [other.2] at hostB; cases hostB
    exact Option.some.inj (foundA.symm.trans foundB)
  · intro single a inside
    cases here : host a with
    | false => exact .inr ⟨inside, rfl⟩
    | true =>
      obtain ⟨b, found⟩ := Option.isSome_iff_exists.mp (List.find?_isSome.mpr ⟨a, inside, here⟩)
      have same := single a inside b (List.mem_of_find?_eq_some found) here (List.find?_some found)
      exact .inl (same ▸ found)

end

/-- Both providers take an entry for what it means, and give back what they were
given, exactly when no prefix is written in a way that misleads one of them and
there is one host at most. -/
theorem allowedIPs_division_iff (allowed : List Text) (valid : ∀ a ∈ allowed, (parseCIDR a).isSome) :
    (DividedByMeaning allowed ∧ KeptByOpenVPN allowed ∧ KeptByIkev2 allowed) ↔
      (∀ a ∈ allowed, PlainPrefix a) ∧ ∀ a ∈ allowed, ∀ b ∈ allowed, isHost a = true → isHost b = true → a = b := by
  rw [← dividedByMeaning_iff valid]
  refine and_congr_right fun divided => ?_
  rw [keptByOpenVPN_iff, keptByIkev2_iff, divided.same, and_self_iff, divided.address, divided.subnets]
  exact listed_iff valid isHost

/-- A host and the network behind it, of version 4. -/
theorem allowedIPs_division_sample :
    DividedByMeaning ["10.8.0.2/32".toList, "192.168.1.0/24".toList] ∧
      KeptByOpenVPN ["10.8.0.2/32".toList, "192.168.1.0/24".toList] ∧
        KeptByIkev2 ["10.8.0.2/32".toList, "192.168.1.0/24".toList] := by
  have valid : ∀ a ∈ ["10.8.0.2/32".toList, "192.168.1.0/24".toList], (parseCIDR a).isSome := by decide +kernel
  have agree : ∀ a ∈ ["10.8.0.2/32".toList, "192.168.1.0/24".toList], endsAsHost a = isHost a := by decide +kernel
  have single : ∀ a ∈ ["10.8.0.2/32".toList, "192.168.1.0/24".toList], ∀ b ∈ ["10.8.0.2/32".toList, "192.168.1.0/24".toList],
      isHost a = true → isHost b = true → a = b := by decide +kernel
  refine (allowedIPs_division_iff _ valid).mpr ⟨fun a inside => ?_, single⟩
  obtain ⟨r, read⟩ := Option.isSome_iff_exists.mp (valid a inside)
  exact (endsAsHost_eq_isHost_iff read).mp (agree a inside)

/-- A network of version 6 with a prefix of 32 bits: one provider routes it, the
other takes it for the address of the client. -/
theorem allowedIPs_division_v6 :
    (parseCIDR "2001:db8::/32".toList).isSome = true ∧
      splitClientAllowedIPs ["2001:db8::/32".toList] = ([], ["2001:db8::/32".toList]) ∧
        splitAllowedIPs ["2001:db8::/32".toList] = ("2001:db8::/32".toList, []) ∧
          ¬ DividedByMeaning ["2001:db8::/32".toList] := by
  have meaning : splitClientAllowedIPs ["2001:db8::/32".toList] = ([], ["2001:db8::/32".toList]) := by decide +kernel
  have spelling : splitAllowedIPs ["2001:db8::/32".toList] = ("2001:db8::/32".toList, []) := by decide +kernel
  refine ⟨by decide +kernel, meaning, spelling, fun divided => ?_⟩
  have same := divided.same
  rw [meaning, spelling] at same
  exact absurd same (by decide +kernel)

end Protean.Cert
