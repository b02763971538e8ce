import Protean.Access.Records
import Protean.Inet.RoundTrip
import Protean.WgFamily.ClientConfig

namespace Protean.WgFamily

/-- A registered instance. Its name is the server and the interface, as in `host:wg0`. -/
structure Instance where
  name : Text
  type : Access.ProviderType
  deriving DecidableEq, Repr

def serverPart (id : Text) : Text := if ':' ∈ id then id.takeWhile (· ≠ ':') else []

/-- `meshCapableTypes`. -/
def meshCapable : Access.ProviderType → Bool
  | .wireguard | .amneziawg | .openvpn | .ikev2 => true
  | .xray => false

/-- Without a server, the instances of all of them. -/
def meshCapableInstances (reg : List Instance) (serverID : Text) : List Text :=
  (reg.filter fun p => meshCapable p.type ∧ (serverID = [] ∨ serverPart p.name = serverID)).map Instance.name

/-- What one request reads: the settings and the status of each instance, and the site subnets. -/
structure Reads where
  settings : Text → Option ProviderSettings
  status : Text → Option ServerStatus
  subnets : Option (List Subnet)

def statusOf (reg : List Instance) (reads : Reads) (name : Text) : Option ServerStatus :=
  if name ∈ reg.map Instance.name then reads.status name else none

/-- What the routes of an instance's clients are made from. -/
def meshEnv (reg : List Instance) (reads : Reads) (name : Text) : MeshEnv where
  settings := reads.settings name
  own := statusOf reg reads name
  others := ((meshCapableInstances reg (serverPart name)).filter (· ≠ name)).map fun other =>
    ⟨reads.settings other, statusOf reg reads other⟩
  subnets := reads.subnets

/-- A network in its normal form. -/
def normal (cidr : Text) : Option Text := (Inet.parseCIDR cidr).map fun r => r.2.toText

def defaultRoute : Text := "0.0.0.0/0".toList

/-- The networks to route, in the order in which they are added. -/
def candidates (tunnelCIDRs subnetCIDRs : List Text) (egress : Bool) : List Text :=
  tunnelCIDRs.filterMap normal ++ subnetCIDRs.filterMap normal ++ if egress then [defaultRoute] else []

/-- The routes are the networks added so far that are not the peer's own, in the order
in which each came first. -/
structure Collected (own added routes : List Text) : Prop where
  mem_iff : ∀ r, r ∈ routes ↔ r ∈ added ∧ r ∉ own
  order : routes.Pairwise fun a b => added.idxOf a < added.idxOf b

namespace Collected

variable {own added routes : List Text}

theorem nil (own : List Text) : Collected own [] [] := ⟨by simp, .nil⟩

theorem nodup (collected : Collected own added routes) : routes.Nodup :=
  collected.order.imp fun before same => by simp [same] at before

/-- A later network does not move an earlier one. -/
theorem order_append (collected : Collected own added routes) (norm : Text) :
    routes.Pairwise fun a b => (added ++ [norm]).idxOf a < (added ++ [norm]).idxOf b := by
  refine collected.order.imp_of_mem fun {a b} memA memB before => ?_
  rw [List.idxOf_append_of_mem ((collected.mem_iff a).mp memA).1,
    List.idxOf_append_of_mem ((collected.mem_iff b).mp memB).1]
  exact before

theorem skip (collected : Collected own added routes) {norm : Text} (known : norm ∈ own ∨ norm ∈ routes) :
    Collected own (added ++ [norm]) routes := by
  refine ⟨fun r => ?_, collected.order_append norm⟩
  rw [collected.mem_iff, List.mem_append, List.mem_singleton]
  constructor
  · exact fun old => ⟨.inl old.1, old.2⟩
  · rintro ⟨old | rfl, other⟩
    · exact ⟨old, other⟩
    · exact (collected.mem_iff r).mp (known.resolve_left other)

theorem add (collected : Collected own added routes) {norm : Text} (foreign : norm ∉ own) (new : norm ∉ routes) :
    Collected own (added ++ [norm]) (routes ++ [norm]) := by
  have fresh : norm ∉ added := fun old => new ((collected.mem_iff norm).mpr ⟨old, foreign⟩)
  refine ⟨fun r => ?_, List.pairwise_append.mpr ⟨collected.order_append norm, List.pairwise_singleton _ _, ?_⟩⟩
  · rw [List.mem_append, List.mem_append, collected.mem_iff, List.mem_singleton, or_and_right]
    refine or_congr_right ⟨?_, And.left⟩
    rintro rfl
    exact ⟨rfl, foreign⟩
  · intro a memA b memB
    have old := ((collected.mem_iff a).mp memA).1
    rw [List.mem_singleton.mp memB, List.idxOf_append_of_mem old, List.idxOf_append_of_notMem fresh]
    exact (List.idxOf_lt_length_of_mem old).trans_le (Nat.le_add_right _ _)

/-- One network of the list. -/
theorem addRoute (collected : Collected own added routes) (cidr : Text) :
    Collected own (added ++ (normal cidr).toList) (addRoute own routes cidr) := by
  unfold WgFamily.addRoute normal
  cases Inet.parseCIDR cidr with
  | none => simpa using collected
  | some read =>
    obtain ⟨_, ipnet⟩ := read
    by_cases known : ipnet.toText ∈ own ∨ ipnet.toText ∈ routes
    · simpa [known] using collected.skip known
    · obtain ⟨foreign, new⟩ := not_or.mp known
      simpa [known] using collected.add foreign new

theorem foldl (collected : Collected own added routes) (cidrs : List Text) :
    Collected own (added ++ cidrs.filterMap normal) (cidrs.foldl (WgFamily.addRoute own) routes) := by
  induction cidrs generalizing added routes with
  | nil => simpa using collected
  | cons cidr cidrs ih =>
    have next := ih (collected.addRoute cidr)
    cases head : normal cidr with
    | none | some norm => simpa [head] using next

end Collected

theorem normal_defaultRoute : normal defaultRoute = some defaultRoute := by decide +kernel

theorem computeRoutes_collected (allowedIPs tunnelCIDRs subnetCIDRs : List Text) (egress : Bool) :
    Collected (allowedIPs.filterMap normal) (candidates tunnelCIDRs subnetCIDRs egress)
      (computeRoutes allowedIPs tunnelCIDRs subnetCIDRs egress) := by
  have folded := (Collected.nil (allowedIPs.filterMap normal)).foldl
    (tunnelCIDRs ++ subnetCIDRs ++ if egress then [defaultRoute] else [])
  have added : (tunnelCIDRs ++ subnetCIDRs ++ if egress then [defaultRoute] else []).filterMap normal =
      candidates tunnelCIDRs subnetCIDRs egress := by
    rw [candidates, List.filterMap_append, List.filterMap_append]
    cases egress <;> simp [normal_defaultRoute]
  rw [List.nil_append, added] at folded
  exact folded

/-- The network of a tunnel is in its normal form already. -/
theorem normal_tunnelNetwork {address net : Text} (tunnel : tunnelNetwork address = some net) :
    normal net = some net := by
  obtain ⟨⟨addr, ipnet⟩, read, rfl⟩ := Option.map_eq_some_iff.mp tunnel
  have again := Inet.parseCIDR_toText read
  have same : ipnet.to4.toText = ipnet.toText := by rw [Inet.IPNet.toText, ipnet.to4_to4, Inet.IPNet.toText]
  rw [normal, again, Option.map_some, same]

/-- An instance that is up and in the mesh, as the request reads it, with its tunnel network. -/
structure Meshed (reg : List Instance) (reads : Reads) (i : Instance) (net : Text) : Prop where
  registered : i ∈ reg
  capable : meshCapable i.type = true
  enabled : ∃ settings, reads.settings i.name = some settings ∧ settings.meshEnabled = true
  up : ∃ st, reads.status i.name = some st ∧ st.up = true ∧ tunnelNetwork st.address = some net

namespace Meshed

variable {reg : List Instance} {reads : Reads} {i j : Instance} {net : Text}

theorem providerTunnelCIDR_eq (meshed : Meshed reg reads i net) :
    providerTunnelCIDR (statusOf reg reads i.name) = some net := by
  obtain ⟨st, read, up, tunnel⟩ := meshed.up
  have addressed : st.address ≠ [] := by
    intro empty
    have nothing : tunnelNetwork [] = none := by decide
    rw [empty, nothing] at tunnel
    cases tunnel
  rw [statusOf, if_pos (List.mem_map_of_mem meshed.registered), read, providerTunnelCIDR, Option.bind_some,
    if_pos ⟨up, addressed⟩, tunnel]

theorem mem_meshTunnelCIDRsExcept (meshed : Meshed reg reads i net) (server : serverPart i.name = serverPart j.name)
    (other : i.name ≠ j.name) : net ∈ meshTunnelCIDRsExcept (meshEnv reg reads j.name).others := by
  obtain ⟨settings, read, enabled⟩ := meshed.enabled
  have listed : i.name ∈ (meshCapableInstances reg (serverPart j.name)).filter (· ≠ j.name) := by
    refine List.mem_filter.mpr ⟨List.mem_map_of_mem (List.mem_filter.mpr ⟨meshed.registered, ?_⟩), by simpa using other⟩
    simp [meshed.capable, server]
  refine List.mem_filterMap.mpr ⟨_, List.mem_map_of_mem listed, ?_⟩
  simp [read, enabled, meshed.providerTunnelCIDR_eq]

theorem mem_routesForPeer (meshed : Meshed reg reads i net) (server : serverPart i.name = serverPart j.name)
    (other : i.name ≠ j.name) {settings : ProviderSettings} (read : reads.settings j.name = some settings)
    (enabled : settings.meshEnabled = true) {subnets : List Subnet} (listed : reads.subnets = some subnets)
    (allowedIPs : List Text) : ∃ routes, routesForPeer (meshEnv reg reads j.name) allowedIPs = some routes ∧
      (net ∉ allowedIPs.filterMap normal → net ∈ routes) := by
  obtain ⟨st, _, _, tunnel⟩ := meshed.up
  let tunnels := (providerTunnelCIDR (statusOf reg reads j.name)).toList ++
    meshTunnelCIDRsExcept (meshEnv reg reads j.name).others
  refine ⟨computeRoutes allowedIPs tunnels (subnets.map Subnet.cidr) settings.internetEgress, ?_, fun foreign => ?_⟩
  · simp [routesForPeer, meshEnv, read, listed, enabled, tunnels]
  · refine ((computeRoutes_collected ..).mem_iff net).mpr ⟨?_, foreign⟩
    have member : net ∈ tunnels := List.mem_append_right _ (meshed.mem_meshTunnelCIDRsExcept server other)
    exact List.mem_append_left _ (List.mem_append_left _
      (List.mem_filterMap.mpr ⟨net, member, normal_tunnelNetwork tunnel⟩))

end Meshed

/-- Routes are what they should be, and the clients of two meshed instances of a server
have routes to each other. -/
theorem computeRoutes_exact :
    (∀ (allowedIPs tunnelCIDRs subnetCIDRs : List Text) (egress : Bool),
      let routes := computeRoutes allowedIPs tunnelCIDRs subnetCIDRs egress
      let added := candidates tunnelCIDRs subnetCIDRs egress
      routes.Nodup ∧
      (∀ r, r ∈ routes ↔ (r ∈ tunnelCIDRs.filterMap normal ∨ r ∈ subnetCIDRs.filterMap normal ∨
        egress = true ∧ r = defaultRoute) ∧ r ∉ allowedIPs.filterMap normal) ∧
      routes.Pairwise fun a b => added.idxOf a < added.idxOf b) ∧
    ∀ (reg : List Instance) (reads : Reads) (a b : Instance) (netA netB : Text) (subnets : List Subnet),
      Meshed reg reads a netA → Meshed reg reads b netB → a.name ≠ b.name → serverPart a.name = serverPart b.name →
      reads.subnets = some subnets → ∀ allowedIPs : List Text,
        (∃ routes, routesForPeer (meshEnv reg reads a.name) allowedIPs = some routes ∧
          (netB ∉ allowedIPs.filterMap normal → netB ∈ routes)) ∧
        ∃ routes, routesForPeer (meshEnv reg reads b.name) allowedIPs = some routes ∧
          (netA ∉ allowedIPs.filterMap normal → netA ∈ routes) := by
  constructor
  · intro allowedIPs tunnelCIDRs subnetCIDRs egress
    have collected := computeRoutes_collected allowedIPs tunnelCIDRs subnetCIDRs egress
    refine ⟨collected.nodup, fun r => ?_, collected.order⟩
    rw [collected.mem_iff, candidates, List.mem_append, List.mem_append, or_assoc]
    cases egress <;> simp
  · intro reg reads a b netA netB subnets meshedA meshedB other server listed allowedIPs
    obtain ⟨settingsA, readA, enabledA⟩ := meshedA.enabled
    obtain ⟨settingsB, readB, enabledB⟩ := meshedB.enabled
    exact ⟨meshedB.mem_routesForPeer server.symm other.symm readA enabledA listed allowedIPs,
      meshedA.mem_routesForPeer server other readB enabledB listed allowedIPs⟩

def meshPair : List Instance := [⟨"host:wg0".toList, .wireguard⟩, ⟨"host:ovpn0".toList, .openvpn⟩]

def meshReads : Reads where
  settings _ := some { meshEnabled := true }
  status name := some
    { up := true, address := if name = "host:wg0".toList then "10.8.0.1/24".toList else "10.9.0.1/24".toList }
  subnets := some []

theorem computeRoutes_exact_sample :
    Meshed meshPair meshReads ⟨"host:wg0".toList, .wireguard⟩ "10.8.0.0/24".toList ∧
    Meshed meshPair meshReads ⟨"host:ovpn0".toList, .openvpn⟩ "10.9.0.0/24".toList ∧
    (∃ routes, routesForPeer (meshEnv meshPair meshReads "host:wg0".toList) ["10.8.0.2/32".toList] = some routes ∧
      ("10.9.0.0/24".toList ∉ ["10.8.0.2/32".toList].filterMap normal → "10.9.0.0/24".toList ∈ routes)) ∧
    ∃ routes, routesForPeer (meshEnv meshPair meshReads "host:ovpn0".toList) ["10.8.0.2/32".toList] = some routes ∧
      ("10.8.0.0/24".toList ∉ ["10.8.0.2/32".toList].filterMap normal → "10.8.0.0/24".toList ∈ routes) := by
  have meshedA : Meshed meshPair meshReads ⟨"host:wg0".toList, .wireguard⟩ "10.8.0.0/24".toList :=
    ⟨by decide, rfl, ⟨_, rfl, rfl⟩, ⟨_, rfl, rfl, by decide +kernel⟩⟩
  have meshedB : Meshed meshPair meshReads ⟨"host:ovpn0".toList, .openvpn⟩ "10.9.0.0/24".toList :=
    ⟨by decide, rfl, ⟨_, rfl, rfl⟩, ⟨_, rfl, rfl, by decide +kernel⟩⟩
  exact ⟨meshedA, meshedB,
    computeRoutes_exact.2 meshPair meshReads _ _ _ _ [] meshedA meshedB (by decide) (by decide) rfl _⟩

end Protean.WgFamily
