import Protean.Inet.Prefix

namespace Protean.Vpn

open Inet

def cidrOverlap (a b : IPNet) : Bool := a.contains b.addr || b.contains a.addr

inductive OverlapError
  | invalidCIDR (candidate : Text)
  | overlaps (candidate existing : Text)
  deriving DecidableEq, Repr

/-- Entries that are no networks are passed over. -/
def firstOverlap (candNet : IPNet) : List Text → Option Text
  | [] => none
  | e :: rest =>
    match parseCIDR e with
    | none => firstOverlap candNet rest
    | some (_, exNet) => if cidrOverlap candNet exNet then some e else firstOverlap candNet rest

def checkNoOverlap (candidate : Text) (existing : List Text) : Except OverlapError Unit :=
  match parseCIDR candidate with
  | none => .error (.invalidCIDR candidate)
  | some (_, candNet) =>
    match firstOverlap candNet existing with
    | some e => .error (.overlaps candidate e)
    | none => .ok ()

def Common (a b : IPNet) : Prop := ∃ addr, a.contains addr = true ∧ b.contains addr = true

theorem cidrOverlap_comm (a b : IPNet) : cidrOverlap a b = cidrOverlap b a := Bool.or_comm _ _

theorem cidrOverlap_iff (a b : IPNet) : cidrOverlap a b = true ↔ Common a b := by
  rw [cidrOverlap, Bool.or_eq_true]
  constructor
  · rintro (base | base)
    · exact ⟨b.addr, base, b.contains_self⟩
    · exact ⟨a.addr, a.contains_self, base⟩
  · rintro ⟨addr, inA, inB⟩
    rcases Nat.le_total a.to4.ones b.to4.ones with shorter | shorter
    · exact .inl (IPNet.contains_of_common shorter inA inB)
    · exact .inr (IPNet.contains_of_common shorter inB inA)

theorem firstOverlap_eq_none_iff (candNet : IPNet) (existing : List Text) :
    firstOverlap candNet existing = none ↔
      ∀ e ∈ existing, ∀ addr exNet, parseCIDR e = some (addr, exNet) → ¬ Common candNet exNet := by
  induction existing with
  | nil => simp [firstOverlap]
  | cons e rest ih =>
    rw [firstOverlap, List.forall_mem_cons]
    cases read : parseCIDR e with
    | none => simp [ih]
    | some result =>
      obtain ⟨addr, exNet⟩ := result
      dsimp only
      by_cases overlap : cidrOverlap candNet exNet = true
      · rw [if_pos overlap]
        refine iff_of_false nofun fun none => ?_
        exact none.1 addr exNet rfl ((cidrOverlap_iff candNet exNet).mp overlap)
      · rw [if_neg overlap, ih]
        refine (and_iff_right fun addr' exNet' same => ?_).symm
        obtain ⟨rfl, rfl⟩ := Prod.mk.inj (Option.some.inj same)
        exact fun common => overlap ((cidrOverlap_iff candNet exNet).mpr common)

/-- Two tests of base addresses decide whether two networks have an address in
common, and a candidate is let through exactly if it has none in common with
any network of the list. -/
theorem cidrOverlap_exact :
    (∀ a b, cidrOverlap a b = true ↔ Common a b) ∧
    (∀ a b, cidrOverlap a b = cidrOverlap b a) ∧
    (∀ a, cidrOverlap a a = true) ∧
    ∀ candidate existing, checkNoOverlap candidate existing = .ok () ↔
      ∃ addr candNet, parseCIDR candidate = some (addr, candNet) ∧
        ∀ e ∈ existing, ∀ addr' exNet, parseCIDR e = some (addr', exNet) → ¬ Common candNet exNet := by
  refine ⟨cidrOverlap_iff, cidrOverlap_comm, fun a => ?_, fun candidate existing => ?_⟩
  · exact (cidrOverlap_iff a a).mpr ⟨a.addr, a.contains_self, a.contains_self⟩
  · unfold checkNoOverlap
    cases parseCIDR candidate with
    | none => simp
    | some result =>
      obtain ⟨addr, candNet⟩ := result
      have apart := firstOverlap_eq_none_iff candNet existing
      dsimp only
      cases found : firstOverlap candNet existing with
      | none => exact iff_of_true rfl ⟨addr, candNet, rfl, apart.mp found⟩
      | some e =>
        refine iff_of_false nofun ?_
        rintro ⟨addr', candNet', same, none⟩
        obtain ⟨rfl, rfl⟩ := Prod.mk.inj (Option.some.inj same)
        cases found.symm.trans (apart.mpr none)

end Protean.Vpn
