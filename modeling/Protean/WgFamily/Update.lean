import Protean.Vpn.Classify
import Protean.WgFamily.Atomic

namespace Protean.WgFamily

structure PeerUpdateReq where
  name : Text
  clientAddress : Text
  keepalive : Int := 0
  subnetIDs : List Int := []
  category : Text := []
  deriving DecidableEq, Repr

/-- A peer of `ListPeers`, by its key and addresses. -/
structure PeerRoutes where
  publicKey : Text
  allowedIPs : List Text
  deriving DecidableEq, Repr

/-- How the steps of an update go. The peer list may come from the cache, where
errors are kept as well. -/
structure UpdateEnv where
  subnets : Option (List Subnet) := some []
  cached : Option (Option (List PeerRoutes)) := none
  list : Env := {}
  update : Env := {}
  setCategory : Bool := true

def Host.peerRoutes (h : Host) : List PeerRoutes := h.live.rows.map fun r => ⟨r.1, r.2.allowedIPs⟩

def listPeers (env : Env) : Proc Host (List PeerRoutes) := do
  Proc.guard (env.dump = .up)
  let _ ← readConf env
  Proc.read fun h => some h.peerRoutes

def providerPeers (env : UpdateEnv) : Proc Panel (List PeerRoutes) :=
  match env.cached with
  | some answer => Proc.lift answer
  | none => onHost (listPeers env.list)

/-- What is listed for the peer, if there is more than one address. -/
def reportedIPs (peers : List PeerRoutes) (pubkey : Text) : List Text :=
  ((peers.find? fun p => p.publicKey = pubkey ∧ 1 < p.allowedIPs.length).map PeerRoutes.allowedIPs).getD []

def existingExtra (peers : List PeerRoutes) (pubkey : Text) : List Text := (reportedIPs peers pubkey).tail

def wantedCIDRs (subnetIDs : List Int) (subnets : List Subnet) : List Text :=
  (subnets.filter fun sn => subnetIDs.contains sn.id).map Subnet.cidr

def addUnseen (allowedIPs : List Text) (cidr : Text) : List Text :=
  if cidr ∈ allowedIPs then allowedIPs else allowedIPs ++ [cidr]

def apiUpdatePeer (env : UpdateEnv) (letterOrNumber : Char → Bool) (pubkey : Text) (req : PeerUpdateReq) :
    Proc Panel Unit := do
  let name := Text.trimSpace req.name
  Proc.guard (validPeerName letterOrNumber name)
  let subnets ← Proc.lift env.subnets
  let peers ← providerPeers env
  let allowedIPs := (existingExtra peers pubkey ++ wantedCIDRs req.subnetIDs subnets).foldl addUnseen
    [Text.trimSpace req.clientAddress]
  onHost (updatePeer env.update pubkey ⟨name, allowedIPs, req.keepalive, []⟩)
  Proc.when (req.category = "site".toList ∨ req.category = "client".toList) do
    let _ ← Proc.attempt (onTables env.setCategory fun t => { t with category := t.category.upsert pubkey req.category })

/-- Nothing is lost, and only what was asked for is new. -/
def OnlyAdds (before requested after : List Text) : Prop :=
  (∀ a ∈ before, a ∈ after) ∧ ∀ a ∈ after, a ∈ before ∨ a ∈ requested

/-- The routes of the peer, in the file and on the interface. -/
structure KeepsRoutes (key : Text) (before requested : List Text) (h : Host) : Prop where
  file : ∃ block, (parseConf h.file).findPeer key = some block ∧ OnlyAdds before requested block.allowedIPs
  live : ∃ peer, h.live.get key = some peer ∧ OnlyAdds before requested peer.allowedIPs

/-- The list that the routes are taken from, behind its first entry, has what
the peer has, but for its own address and what is asked for. -/
structure Preserved (own : Text) (before requested reported : List Text) : Prop where
  kept : ∀ a ∈ before, a = own ∨ a ∈ reported.tail ∨ a ∈ requested
  known : ∀ a ∈ own :: reported.tail, a ∈ before ∨ a ∈ requested

/-- What `providerPeers` answers, if it does. -/
def UpdateEnv.peers (env : UpdateEnv) (h : Host) : List PeerRoutes :=
  match env.cached with
  | some answer => answer.getD []
  | none => h.peerRoutes

section
variable {a own : Text} {before requested reported : List Text}

theorem mem_foldl_addUnseen (cidrs ips : List Text) : a ∈ cidrs.foldl addUnseen ips ↔ a ∈ ips ∨ a ∈ cidrs := by
  induction cidrs generalizing ips with
  | nil => simp
  | cons cidr cidrs ih =>
    have step : a ∈ addUnseen ips cidr ↔ a ∈ ips ∨ a = cidr := by
      unfold addUnseen
      split
      · rename_i seen
        constructor
        · exact .inl
        · rintro (old | rfl)
          · exact old
          · exact seen
      · rw [List.mem_append, List.mem_singleton]
    rw [List.foldl_cons, ih, step, List.mem_cons, or_assoc]

theorem onlyAdds_iff :
    OnlyAdds before requested ((reported.tail ++ requested).foldl addUnseen [own]) ↔
      Preserved own before requested reported := by
  have member : ∀ a, a ∈ (reported.tail ++ requested).foldl addUnseen [own] ↔
      a = own ∨ a ∈ reported.tail ∨ a ∈ requested := by
    intro a
    rw [mem_foldl_addUnseen, List.mem_singleton, List.mem_append]
  constructor
  · rintro ⟨all, only⟩
    refine ⟨fun a old => (member a).mp (all a old), fun a listed => only a ((member a).mpr ?_)⟩
    rcases List.mem_cons.mp listed with rfl | later
    · exact .inl rfl
    · exact .inr (.inl later)
  · intro preserved
    refine ⟨fun a old => (member a).mpr (preserved.kept a old), fun a new => ?_⟩
    rcases (member a).mp new with rfl | later | asked
    · exact preserved.known a List.mem_cons_self
    · exact preserved.known a (List.mem_cons_of_mem _ later)
    · exact .inr asked

/-- When the list is the one on the interface, only its first entry is at stake. -/
theorem preserved_live_iff {tunnelCIDR : Text} (trimmed : ∀ a ∈ before, Text.trimSpace a = a)
    (same : (Vpn.classifyPeerRoutes tunnelCIDR before).ownAddress = own) (found : own ≠ []) :
    Preserved own before requested before ↔ ∀ a ∈ before.head?, a = own ∨ a ∈ before.tail ∨ a ∈ requested := by
  have listed : own ∈ before := by
    obtain ⟨raw, member, entry⟩ := Vpn.ownAddress_origin (same ▸ found)
    rw [trimmed raw member, same] at entry
    exact entry ▸ member
  clear same trimmed
  cases before with
  | nil => cases listed
  | cons first rest =>
    constructor
    · intro preserved a head
      exact preserved.kept a (List.mem_of_mem_head? head)
    · intro head
      refine ⟨fun a member => ?_, fun a member => .inl ?_⟩
      · rcases List.mem_cons.mp member with rfl | later
        · exact head a rfl
        · exact .inr (.inl later)
      · rcases List.mem_cons.mp member with rfl | later
        · exact listed
        · exact List.mem_cons_of_mem _ later

end

section
variable {env : UpdateEnv} {letterOrNumber : Char → Bool} {req : PeerUpdateReq} {key : Text} {p p' : Panel}

theorem exec_providerPeers (env : UpdateEnv) (p : Panel) :
    (providerPeers env).exec p =
      (match env.cached with
        | some answer => answer
        | none => if env.list.dump = .up ∧ env.list.readConf = true then some p.host.peerRoutes else none, p) := by
  unfold providerPeers
  cases env.cached with
  | some answer => rfl
  | none =>
    unfold listPeers
    rw [onHost, Proc.exec_zoom, Proc.exec_guard_bind, exec_readConf_bind]
    by_cases up : env.list.dump = .up <;> cases env.list.readConf <;> simp [up]

theorem providerPeers_done {peers : List PeerRoutes} (done : (providerPeers env).exec p = (some peers, p')) :
    peers = env.peers p.host ∧ p' = p := by
  rw [exec_providerPeers] at done
  obtain ⟨answer, rfl⟩ := Prod.mk.inj done
  refine ⟨?_, rfl⟩
  unfold UpdateEnv.peers
  split at answer
  · rw [answer]
    rfl
  · split at answer
    · exact (Option.some.inj answer).symm
    · cases answer

theorem apiUpdatePeer_done (accepted : (apiUpdatePeer env letterOrNumber key req).exec p = (some (), p')) :
    ∃ subnets, env.subnets = some subnets ∧
      (updatePeer env.update key ⟨Text.trimSpace req.name,
        (existingExtra (env.peers p.host) key ++ wantedCIDRs req.subnetIDs subnets).foldl addUnseen
          [Text.trimSpace req.clientAddress], req.keepalive, []⟩).exec p.host = (some (), p'.host) := by
  unfold apiUpdatePeer at accepted
  obtain ⟨u, t, checked, accepted⟩ := Proc.exec_bind_eq_some_iff.mp accepted
  obtain ⟨_, rfl⟩ := Proc.exec_guard_eq_some_iff.mp checked
  obtain ⟨subnets, t, read, accepted⟩ := Proc.exec_bind_eq_some_iff.mp accepted
  obtain ⟨listed, rfl⟩ := Proc.exec_lift_eq_some_iff.mp read
  obtain ⟨peers, t, read, accepted⟩ := Proc.exec_bind_eq_some_iff.mp accepted
  obtain ⟨rfl, rfl⟩ := providerPeers_done read
  obtain ⟨u, t, updated, category⟩ := Proc.exec_bind_eq_some_iff.mp accepted
  rw [onTables_attempted category]
  exact ⟨subnets, listed, onHost_done updated⟩

/-- The list for a peer is the one on the interface, unless it was cached. -/
def UpdateEnv.reported (env : UpdateEnv) (key : Text) (live : List Text) : List Text :=
  match env.cached with
  | some answer => reportedIPs (answer.getD []) key
  | none => live

theorem existingExtra_peers (env : UpdateEnv) {old : LivePeer} (live : p.host.live.get key = some old) :
    existingExtra (env.peers p.host) key = (env.reported key old.allowedIPs).tail := by
  unfold UpdateEnv.peers UpdateEnv.reported existingExtra
  cases env.cached with
  | some answer => rfl
  | none =>
    have own : ∀ r ∈ p.host.peerRoutes, r.publicKey = key → r.allowedIPs = old.allowedIPs := by
      intro r member same
      obtain ⟨row, listed, rfl⟩ := List.mem_map.mp member
      obtain rfl : row.1 = key := same
      have found : p.host.live.get row.1 = some row.2 := KeyTable.get_eq_some_iff.mpr listed
      rw [Option.some.inj (found.symm.trans live)]
    dsimp only
    unfold reportedIPs
    cases found : p.host.peerRoutes.find? fun r => r.publicKey = key ∧ 1 < r.allowedIPs.length with
    | some r =>
      have chosen := List.find?_some found
      exact congrArg List.tail (own r (List.mem_of_find?_eq_some found) (of_decide_eq_true chosen).1)
    | none =>
      have member : (⟨key, old.allowedIPs⟩ : PeerRoutes) ∈ p.host.peerRoutes :=
        List.mem_map_of_mem (f := fun r => (⟨r.1, r.2.allowedIPs⟩ : PeerRoutes)) (KeyTable.get_eq_some_iff.mp live)
      have short : old.allowedIPs.length ≤ 1 := by simpa using List.find?_eq_none.mp found _ member
      have empty : old.allowedIPs.tail = [] := List.length_eq_zero_iff.mp (by rw [List.length_tail]; omega)
      exact empty.symm

/-- An edit that keeps the tunnel address keeps the routes exactly if they are
in the list behind its first entry. -/
theorem peer_update_keeps_routes_iff {tunnelCIDR : Text} {old : LivePeer} (live : p.host.live.get key = some old)
    (own : Text.trimSpace req.clientAddress = (Vpn.classifyPeerRoutes tunnelCIDR old.allowedIPs).ownAddress)
    (accepted : (apiUpdatePeer env letterOrNumber key req).exec p = (some (), p')) :
    KeepsRoutes key old.allowedIPs (wantedCIDRs req.subnetIDs (env.subnets.getD [])) p'.host ↔
      Preserved (Vpn.classifyPeerRoutes tunnelCIDR old.allowedIPs).ownAddress old.allowedIPs
        (wantedCIDRs req.subnetIDs (env.subnets.getD [])) (env.reported key old.allowedIPs) := by
  obtain ⟨subnets, listed, updated⟩ := apiUpdatePeer_done accepted
  rw [existingExtra_peers env live] at updated
  obtain ⟨there, block, found, -, ips⟩ := updatePeer_done updated
  rw [listed, Option.getD_some, ← own, ← onlyAdds_iff]
  constructor
  · rintro ⟨_, peer, live, adds⟩
    rw [there] at live
    obtain rfl := Option.some.inj live
    exact adds
  · intro adds
    refine ⟨⟨block, found, ?_⟩, _, there, adds⟩
    rw [ips]
    exact adds

end

def updatePanel (allowedIPs : List Text) : Panel where
  host := ⟨"[Peer]\nPublicKey = a2V5\n".toList, [], 0, KeyTable.empty.upsert "a2V5".toList ⟨allowedIPs, 0⟩⟩

def updateReq : PeerUpdateReq where
  name := "b".toList
  clientAddress := "10.8.0.2/32".toList

theorem peer_update_keeps_routes_iff_sample :
    KeepsRoutes "a2V5".toList ["10.8.0.2/32".toList, "10.9.0.0/16".toList] []
      ((apiUpdatePeer {} Char.isAlphanum "a2V5".toList updateReq).exec
        (updatePanel ["10.8.0.2/32".toList, "10.9.0.0/16".toList])).2.host := by
  have own : (Vpn.classifyPeerRoutes "10.8.0.0/24".toList
      ["10.8.0.2/32".toList, "10.9.0.0/16".toList]).ownAddress = "10.8.0.2/32".toList := by decide +kernel
  have live : (updatePanel ["10.8.0.2/32".toList, "10.9.0.0/16".toList]).host.live.get "a2V5".toList =
      some ⟨["10.8.0.2/32".toList, "10.9.0.0/16".toList], 0⟩ := KeyTable.get_upsert_self _ _ _
  have kept : Text.trimSpace updateReq.clientAddress = (Vpn.classifyPeerRoutes "10.8.0.0/24".toList
      ["10.8.0.2/32".toList, "10.9.0.0/16".toList]).ownAddress := by decide +kernel
  have accepted : ((apiUpdatePeer {} Char.isAlphanum "a2V5".toList updateReq).exec
      (updatePanel ["10.8.0.2/32".toList, "10.9.0.0/16".toList])).1 = some () := by decide +kernel
  refine (peer_update_keeps_routes_iff live kept (Prod.ext accepted rfl)).mpr ?_
  rw [own]
  exact (preserved_live_iff (by decide +kernel) own (by decide)).mpr fun a head => .inl (Option.some.inj head).symm

/-- A peer whose site subnet stands before its own address loses it by an edit. -/
theorem peer_update_loses_route :
    (Vpn.classifyPeerRoutes "10.8.0.0/24".toList ["10.9.0.0/16".toList, "10.8.0.2/32".toList]).ownAddress =
        Text.trimSpace updateReq.clientAddress ∧
      ((apiUpdatePeer {} Char.isAlphanum "a2V5".toList updateReq).exec
        (updatePanel ["10.9.0.0/16".toList, "10.8.0.2/32".toList])).1 = some () ∧
      ¬ KeepsRoutes "a2V5".toList ["10.9.0.0/16".toList, "10.8.0.2/32".toList] []
        ((apiUpdatePeer {} Char.isAlphanum "a2V5".toList updateReq).exec
          (updatePanel ["10.9.0.0/16".toList, "10.8.0.2/32".toList])).2.host := by
  refine ⟨by decide +kernel, by decide +kernel, fun keeps => ?_⟩
  obtain ⟨peer, live, all, _⟩ := keeps.live
  have after : ((apiUpdatePeer {} Char.isAlphanum "a2V5".toList updateReq).exec
      (updatePanel ["10.9.0.0/16".toList, "10.8.0.2/32".toList])).2.host.live.get "a2V5".toList =
        some ⟨["10.8.0.2/32".toList], 0⟩ := by decide +kernel
  obtain rfl := Option.some.inj (after.symm.trans live)
  exact absurd (all _ List.mem_cons_self) (by decide +kernel)

end Protean.WgFamily
