import Protean.Cert.Provider
import Protean.WgFamily.Create

namespace Protean.Cert
open Inet (Addr IPNet parseCIDR)

/-- The names that can come to a provider: those that the panel checked, and
those of certificates that verify. -/
inductive Enrollable (letterOrNumber : Char → Bool) (crypto : Crypto) (cn : Text) : Prop
  | named (valid : WgFamily.validPeerName letterOrNumber cn = true) (trimmed : Text.trimSpace cn = cn)
  | imported {ca : CA} {certPEM : Text} (verified : verifyClientCert crypto ca certPEM = some cn)

/-- Letters and digits of ASCII, `-` and `_` stay. -/
def sanitizeChar (c : Char) : Char :=
  if ('a' ≤ c && c ≤ 'z') || ('A' ≤ c && c ≤ 'Z') || ('0' ≤ c && c ≤ '9') || c = '-' || c = '_' then c else '_'

def sanitizeName (s : Text) : Text := if s = [] then "client".toList else s.map sanitizeChar

/-- One entry of a list of addresses: the first host becomes the client's own
address, a later one is dropped, and everything else is a subnet. -/
def divide (host : Text → Bool) (found : Text × List Text) (a : Text) : Text × List Text :=
  if host a then (if found.1 = [] then a else found.1, found.2) else (found.1, found.2 ++ [a])

/-- By what the entry means: every bit of its mask is set. -/
def isHost (a : Text) : Bool := ((parseCIDR a).map fun r => r.2.isHost).getD false

/-- By how the entry is written. -/
def endsAsHost (a : Text) : Bool := "/32".toList.isSuffixOf a || "/128".toList.isSuffixOf a

/-- OpenVPN's: an entry that does not parse is left out. -/
def splitClientAllowedIPs (allowed : List Text) : Text × List Text :=
  (allowed.filter fun a => (parseCIDR a).isSome).foldl (divide isHost) ([], [])

/-- IKEv2's. -/
def splitAllowedIPs (allowed : List Text) : Text × List Text := allowed.foldl (divide endsAsHost) ([], [])

/-- What a list of peers shows of the two columns. -/
def listedIPs (address subnets : Text) : List Text :=
  (if address ≠ [] then [address] else []) ++ (if subnets ≠ [] then subnets.splitOn ',' else [])

theorem foldl_divide {host : Text → Bool} (written : ∀ a, host a = true → a ≠ []) (allowed : List Text) (own : Text)
    (subnets : List Text) :
    allowed.foldl (divide host) (own, subnets) =
      (if own = [] then (allowed.find? host).getD [] else own, subnets ++ allowed.filter fun a => !host a) := by
  induction allowed generalizing own subnets with
  | nil => by_cases empty : own = [] <;> simp [empty]
  | cons a allowed ih =>
    rw [List.foldl_cons, divide]
    by_cases here : host a = true
    · rw [if_pos here, ih]
      by_cases empty : own = [] <;> simp [here, empty, written a here]
    · rw [if_neg here, ih]
      simp [here]

theorem isHost_written {a : Text} (host : isHost a = true) : a ≠ [] := by
  rintro rfl
  exact absurd host (by decide +kernel)

theorem endsAsHost_written {a : Text} (host : endsAsHost a = true) : a ≠ [] := by
  rintro rfl
  exact absurd host (by decide +kernel)

theorem splitAllowedIPs_eq (allowed : List Text) :
    splitAllowedIPs allowed = ((allowed.find? endsAsHost).getD [], allowed.filter fun a => !endsAsHost a) := by
  rw [splitAllowedIPs, foldl_divide (fun _ => endsAsHost_written), if_pos rfl, List.nil_append]

section
variable {allowed : List Text} (valid : ∀ a ∈ allowed, (parseCIDR a).isSome)
include valid

theorem splitClientAllowedIPs_eq :
    splitClientAllowedIPs allowed = ((allowed.find? isHost).getD [], allowed.filter fun a => !isHost a) := by
  rw [splitClientAllowedIPs, List.filter_eq_self.mpr valid, foldl_divide (fun _ => isHost_written), if_pos rfl,
    List.nil_append]

theorem entry_plain {a : Text} (inside : a ∈ allowed) : a ≠ [] ∧ ',' ∉ a := by
  obtain ⟨r, read⟩ := Option.isSome_iff_exists.mp (valid a inside)
  refine ⟨?_, fun comma => (Inet.textChar_plain (Inet.textChar_parseCIDR read ',' comma)).2 rfl⟩
  rintro rfl
  exact absurd (valid [] inside) (by decide +kernel)

/-- Entries that parse come back out of the two columns. -/
theorem mem_listedIPs (host : Text → Bool) {a : Text} :
    a ∈ listedIPs ((allowed.find? host).getD []) ([','].intercalate (allowed.filter fun b => !host b)) ↔
      allowed.find? host = some a ∨ a ∈ allowed ∧ host a = false := by
  have own : a ∈ (if (allowed.find? host).getD [] ≠ [] then [(allowed.find? host).getD []] else []) ↔
      allowed.find? host = some a := by
    cases found : allowed.find? host with
    | none => simp
    | some b =>
      have written := (entry_plain valid (List.mem_of_find?_eq_some found)).1
      simp [written, eq_comm]
  have rest : a ∈ (if [','].intercalate (allowed.filter fun b => !host b) ≠ [] then
      ([','].intercalate (allowed.filter fun b => !host b)).splitOn ',' else []) ↔ a ∈ allowed ∧ host a = false := by
    have plain : ∀ b ∈ allowed.filter fun b => !host b, b ≠ [] ∧ ',' ∉ b :=
      fun b inside => entry_plain valid (List.mem_filter.mp inside).1
    have member : a ∈ (allowed.filter fun b => !host b) ↔ a ∈ allowed ∧ host a = false := by simp
    rw [← member]
    generalize (allowed.filter fun b => !host b) = subnets at plain
    cases subnets with
    | nil => simp
    | cons b subnets =>
      have back : ([','].intercalate (b :: subnets)).splitOn ',' = b :: subnets :=
        List.splitOn_intercalate ',' (fun c inside => (plain c inside).2) (List.cons_ne_nil b subnets)
      have written : [','].intercalate (b :: subnets) ≠ [] := by
        intro empty
        rw [empty] at back
        obtain ⟨rfl, -⟩ := List.cons.inj back
        exact (plain [] List.mem_cons_self).1 rfl
      rw [if_pos written, back]
  rw [listedIPs, List.mem_append, own, rest]

end

end Protean.Cert
