import Protean.Inet

namespace Protean.Vpn

structure PeerRouteClass where
  ownAddress : Text := []
  siteSubnets : List Text := []
  fullTunnel : Bool := false
  anomalies : List Text := []
  deriving DecidableEq, Repr

def PeerRouteClass.addAnomaly (c : PeerRouteClass) (text : Text) : PeerRouteClass :=
  { c with anomalies := c.anomalies ++ [text] }

/-- An entry that lies in the tunnel network as a whole. -/
def insideTunnel (tunnelNet : Inet.IPNet) (entry : Inet.Addr × Inet.IPNet) : Bool :=
  tunnelNet.contains entry.1 && tunnelNet.ones ≤ entry.2.ones

/-- One entry after the other, without the spaces around it. -/
def classifyEntry (tunnelNet : Inet.IPNet) (c : PeerRouteClass) (raw : Text) : PeerRouteClass :=
  let a := Text.trimSpace raw
  if a = [] then c
  else if a = "0.0.0.0/0".toList ∨ a = "::/0".toList then { c with fullTunnel := true }
  else match Inet.parseCIDR a with
    | none => c.addAnomaly ("unparsable AllowedIPs entry: ".toList ++ a)
    | some entry =>
      if insideTunnel tunnelNet entry then
        if entry.2.isHost then
          if c.ownAddress = [] then { c with ownAddress := a }
          else c.addAnomaly ("multiple candidate own addresses: ".toList ++ c.ownAddress ++ " and ".toList ++ a)
        else c.addAnomaly ("entry ".toList ++ a ++
          " is inside the tunnel network but isn't a host address -- not auto-classified".toList)
      else { c with siteSubnets := c.siteSubnets ++ [a] }

/-- Without a tunnel network nothing is told apart. -/
def unclassified (c : PeerRouteClass) (raw : Text) : PeerRouteClass :=
  let a := Text.trimSpace raw
  if a = [] then c
  else c.addAnomaly ("no usable tunnel network to classify ".toList ++ a ++ " against".toList)

def classifyPeerRoutes (tunnelCIDR : Text) (allowedIPs : List Text) : PeerRouteClass :=
  match Inet.parseCIDR tunnelCIDR with
  | none => allowedIPs.foldl unclassified {}
  | some (_, tunnelNet) => allowedIPs.foldl (classifyEntry tunnelNet) {}

section
variable {tunnelNet : Inet.IPNet} {c : PeerRouteClass} {raw : Text}

/-- The address stays, or it is the new entry, for a host. -/
theorem classifyEntry_ownAddress (tunnelNet : Inet.IPNet) (c : PeerRouteClass) (raw : Text) :
    (classifyEntry tunnelNet c raw).ownAddress = c.ownAddress ∨
      (classifyEntry tunnelNet c raw).ownAddress = Text.trimSpace raw ∧
        ∃ entry, Inet.parseCIDR (Text.trimSpace raw) = some entry ∧ entry.2.isHost = true ∧
          insideTunnel tunnelNet entry = true := by
  unfold classifyEntry
  dsimp only
  split
  · exact .inl rfl
  split
  · exact .inl rfl
  split
  · exact .inl rfl
  rename_i entry parsed
  split
  · rename_i inside
    split
    · rename_i host
      split
      · exact .inr ⟨rfl, entry, parsed, host, inside⟩
      · exact .inl rfl
    · exact .inl rfl
  · exact .inl rfl

theorem unclassified_ownAddress (c : PeerRouteClass) (raw : Text) : (unclassified c raw).ownAddress = c.ownAddress := by
  unfold unclassified
  dsimp only
  split <;> rfl

/-- The own address is an entry of the list, for a host in the tunnel. -/
theorem ownAddress_origin {tunnelCIDR : Text} {allowedIPs : List Text}
    (found : (classifyPeerRoutes tunnelCIDR allowedIPs).ownAddress ≠ []) :
    ∃ raw ∈ allowedIPs, Text.trimSpace raw = (classifyPeerRoutes tunnelCIDR allowedIPs).ownAddress := by
  unfold classifyPeerRoutes at found ⊢
  split
  · rename_i none
    have same : ∀ (ips : List Text) (c : PeerRouteClass), (ips.foldl unclassified c).ownAddress = c.ownAddress := by
      intro ips
      induction ips with
      | nil => exact fun c => rfl
      | cons raw ips ih => exact fun c => (ih _).trans (unclassified_ownAddress c raw)
    rw [none] at found
    exact absurd (same allowedIPs {}) found
  · rename_i addr tunnelNet parsed
    rw [parsed] at found
    have origin : ∀ (ips : List Text) (c : PeerRouteClass),
        (ips.foldl (classifyEntry tunnelNet) c).ownAddress = c.ownAddress ∨
          ∃ raw ∈ ips, Text.trimSpace raw = (ips.foldl (classifyEntry tunnelNet) c).ownAddress := by
      intro ips
      induction ips with
      | nil => exact fun c => .inl rfl
      | cons raw ips ih =>
        intro c
        rcases ih (classifyEntry tunnelNet c raw) with same | ⟨later, member, own⟩
        · rcases classifyEntry_ownAddress tunnelNet c raw with old | ⟨new, _⟩
          · exact .inl (same.trans old)
          · exact .inr ⟨raw, List.mem_cons_self, (same.trans new).symm⟩
        · exact .inr ⟨later, List.mem_cons_of_mem _ member, own⟩
    exact (origin allowedIPs {}).resolve_left found

end

end Protean.Vpn
