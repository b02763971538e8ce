import Mathlib.Data.List.Induction
import Protean.Inet.RoundTrip
import Protean.Vpn.Classify

/- What the classification says of every entry, and when the site subnets are
the networks outside the tunnel. -/
namespace Protean.Vpn

open Inet

/-- The entries that are not blank, without the spaces around them. -/
def entriesOf (allowedIPs : List Text) : List Text := (allowedIPs.map Text.trimSpace).filter (· ≠ [])

def FullTunnelMarker (a : Text) : Prop := a = "0.0.0.0/0".toList ∨ a = "::/0".toList

instance (a : Text) : Decidable (FullTunnelMarker a) := inferInstanceAs (Decidable (_ ∨ _))

inductive Verdict
  | own
  | site
  | fullTunnel
  | anomaly (text : Text)
  deriving DecidableEq, Repr

def Verdict.text : Verdict → Option Text
  | .anomaly text => some text
  | _ => none

/-- The report is made of one verdict for each entry. -/
structure Accounted (allowedIPs : List Text) (c : PeerRouteClass) (verdicts : List (Text × Verdict)) : Prop where
  entries : verdicts.map Prod.fst = entriesOf allowedIPs
  own : (verdicts.filter (·.2 = .own)).map Prod.fst = if c.ownAddress = [] then [] else [c.ownAddress]
  sites : (verdicts.filter (·.2 = .site)).map Prod.fst = c.siteSubnets
  fullTunnel : verdicts.any (·.2 = .fullTunnel) = c.fullTunnel
  markers : ∀ v ∈ verdicts, v.2 = .fullTunnel → FullTunnelMarker v.1
  anomalies : verdicts.filterMap (·.2.text) = c.anomalies
  named : ∀ v ∈ verdicts, ∀ text, v.2 = .anomaly text → v.1 <:+: text

/-- Every address of the one network is in the other. -/
def CoveredBy (net tunnelNet : IPNet) : Prop := ∀ a, net.contains a = true → tunnelNet.contains a = true

def PeerRouteClass.record (c : PeerRouteClass) (a : Text) : Verdict → PeerRouteClass
  | .own => { c with ownAddress := a }
  | .site => { c with siteSubnets := c.siteSubnets ++ [a] }
  | .fullTunnel => { c with fullTunnel := true }
  | .anomaly text => c.addAnomaly text

/-- What a verdict takes, whatever the tunnel is. -/
inductive Judged (c : PeerRouteClass) (a : Text) : Verdict → Prop
  | own (first : c.ownAddress = []) : Judged c a .own
  | site : Judged c a .site
  | fullTunnel (marker : FullTunnelMarker a) : Judged c a .fullTunnel
  | anomaly {text : Text} (named : a <:+: text) : Judged c a (.anomaly text)

section
variable {tunnelNet : IPNet} {c : PeerRouteClass} {raw a : Text} {ips : List Text}

theorem entriesOf_concat (ips : List Text) (raw : Text) :
    entriesOf (ips ++ [raw]) = entriesOf ips ++ if Text.trimSpace raw = [] then [] else [Text.trimSpace raw] := by
  unfold entriesOf
  rw [List.map_append, List.filter_append]
  by_cases blank : Text.trimSpace raw = [] <;> simp [blank]

theorem Accounted.skip {verdicts : List (Text × Verdict)} (accounted : Accounted ips c verdicts)
    (blank : Text.trimSpace raw = []) : Accounted (ips ++ [raw]) c verdicts where
  entries := by rw [accounted.entries, entriesOf_concat, if_pos blank, List.append_nil]
  own := accounted.own
  sites := accounted.sites
  fullTunnel := accounted.fullTunnel
  markers := accounted.markers
  anomalies := accounted.anomalies
  named := accounted.named

/-- One more entry is one more verdict. -/
theorem Accounted.record {verdicts : List (Text × Verdict)} {v : Verdict} (accounted : Accounted ips c verdicts)
    (text : Text.trimSpace raw ≠ []) (judged : Judged c (Text.trimSpace raw) v) :
    Accounted (ips ++ [raw]) (c.record (Text.trimSpace raw) v) (verdicts ++ [(Text.trimSpace raw, v)]) where
  entries := by rw [List.map_append, accounted.entries, entriesOf_concat, if_neg text]; rfl
  own := by
    rw [List.filter_append, List.map_append, accounted.own]
    cases judged with
    | own first => rw [if_pos first]; exact (if_neg text).symm
    | site | fullTunnel | anomaly => exact List.append_nil _
  sites := by
    rw [List.filter_append, List.map_append, accounted.sites]
    cases judged with
    | site => rfl
    | own | fullTunnel | anomaly => exact List.append_nil _
  fullTunnel := by
    rw [List.any_append, accounted.fullTunnel]
    cases judged with
    | fullTunnel => exact Bool.or_true _
    | own | site | anomaly => exact Bool.or_false _
  markers := by
    intro w member isMarker
    rcases List.mem_append.mp member with old | new
    · exact accounted.markers w old isMarker
    · cases List.mem_singleton.mp new
      cases isMarker
      cases judged with
      | fullTunnel marker => exact marker
  anomalies := by
    rw [List.filterMap_append, accounted.anomalies]
    cases judged with
    | anomaly => rfl
    | own | site | fullTunnel => exact List.append_nil _
  named := by
    intro w member text' isAnomaly
    rcases List.mem_append.mp member with old | new
    · exact accounted.named w old text' isAnomaly
    · cases List.mem_singleton.mp new
      cases isAnomaly
      cases judged with
      | anomaly named => exact named

/-- The test of the code tells networks behind the peer from those in the tunnel. -/
def Told (tunnelNet : IPNet) (a : Text) : Prop :=
  FullTunnelMarker a ∨ ∀ ip net, parseCIDR a = some (ip, net) →
    if net.ones = 0 then insideTunnel tunnelNet (ip, net) = true
    else insideTunnel tunnelNet (ip, net) = true ↔ CoveredBy net tunnelNet

/-- Among networks of version 4, written as such, the address and the length tell. -/
theorem insideTunnel_iff_coveredBy {ip tunnelIP : BitVec 32} {t n : Nat} (short : t ≤ 32) :
    insideTunnel ⟨.v4 (mask t tunnelIP), t⟩ (.v4 ip, ⟨.v4 (mask n ip), n⟩) = true ↔
      CoveredBy ⟨.v4 (mask n ip), n⟩ ⟨.v4 (mask t tunnelIP), t⟩ := by
  have contains (p : Nat) (base : BitVec 32) (x : Addr) :
      IPNet.contains ⟨.v4 (mask p base), p⟩ x = true ↔ Addr.v4 (mask p base) = x.to4.mask p := by
    rw [IPNet.contains_iff]
    exact Eq.congr_left (congrArg Addr.v4 (mask_mask_of_le le_rfl base))
  have own : IPNet.contains ⟨.v4 (mask n ip), n⟩ (.v4 ip) = true := (contains n ip _).mpr rfl
  rw [insideTunnel, Bool.and_eq_true, decide_eq_true_iff]
  constructor
  · rintro ⟨inside, longer⟩ x inNet
    rw [contains] at inside inNet ⊢
    calc Addr.v4 (mask t tunnelIP)
        = (Addr.v4 (mask n ip)).mask t := inside.trans (congrArg Addr.v4 (mask_mask_of_le longer ip).symm)
      _ = x.to4.mask t := by rw [inNet, Addr.mask_mask_of_le longer]
  · intro within
    refine ⟨within _ own, Nat.le_of_not_lt fun shorter => ?_⟩
    obtain ⟨b, same, other⟩ := exists_mask_ne shorter short ip
    have atIP := (contains t tunnelIP _).mp (within _ own)
    have atB := (contains t tunnelIP _).mp (within (.v4 b) ((contains n ip _).mpr (congrArg Addr.v4 same)))
    exact other (Addr.v4.inj (atIP.symm.trans atB))

/-- Among networks of version 4, written as such, only those of length zero are mistaken. -/
theorem told_of_v4 {tunnelCIDR : Text} {ip tunnelIP : BitVec 32} {net tunnelNet : IPNet}
    (tunnel : parseCIDR tunnelCIDR = some (.v4 tunnelIP, tunnelNet)) (parsed : parseCIDR a = some (.v4 ip, net))
    (nonzero : net.ones ≠ 0) : Told tunnelNet a := by
  refine .inr fun ip' net' same => ?_
  cases parsed.symm.trans same
  rw [if_neg nonzero, (parseCIDR_net tunnel).2, (parseCIDR_net parsed).2]
  exact insideTunnel_iff_coveredBy (parseCIDR_net tunnel).1

end

end Protean.Vpn
