import Protean.PeerID
import Protean.Vpn.Ipam
import Protean.WgFamily.ClientConfig
import Protean.WgFamily.Disable
import Protean.WgFamily.Update

namespace Protean.WgFamily

open Inet Vpn

/-- How the steps of one call go, and what they find. -/
structure ProvisionEnv where
  status : Env := {}
  publicHost : Text := []
  list : Env := {}
  range : Option (Text × Text) := some ([], [])
  fuel : Nat
  add : Env := {}
  drawn : Option (List UInt8 × List UInt8) := none
  secret : SecretEnv := {}

structure NewPeer where
  urlID : Text
  publicKey : Text
  privateKey : Text
  allowedIPs : List Text
  deriving DecidableEq, Repr

/-- The addresses in use: those of the peers, and the server's own. -/
def usedAddrs (cidr : Text) (peers : List PeerRoutes) : List Addr :=
  (peers.flatMap fun p => p.allowedIPs.filterMap fun a => (parseCIDR a).map Prod.fst) ++
    ((parseCIDR cidr).map Prod.fst).toList

def freeIP (fuel : Nat) (cidr : Text) (range : Text × Text) (peers : List PeerRoutes) : Option Text :=
  (nextFreeIPInRange fuel cidr range.1 range.2 ((usedAddrs cidr peers).map Addr.toText)).bind Except.toOption

/-- The call from where its address is known. -/
def addAssigned (env : ProvisionEnv) (name free : Text) : Proc Panel NewPeer := do
  let (priv, pub) ← onHost (addPeer env.add env.drawn ⟨name, [free], 25, []⟩)
  Proc.guard (pub ≠ [])
  storeSecret env.secret priv pub
  return ⟨encodePeerID pub, pub, priv, [free]⟩

def autoProvisionPeer (env : ProvisionEnv) (name : Text) : Proc Panel NewPeer := do
  let st ← onHost (status env.status env.publicHost)
  let cidr := firstCIDR st.address
  Proc.guard (cidr ≠ [])
  let peers ← onHost (listPeers env.list)
  let range ← Proc.lift env.range
  let free ← Proc.lift (freeIP env.fuel cidr range peers)
  addAssigned env name free

structure DeleteEnv where
  remove : Env := {}
  deleteSecret : Bool := true
  deleteExpiry : Bool := true
  deleteCategory : Bool := true
  setMuted : Bool := true
  deleteForwardRules : Bool := true

def apiDeletePeer (env : DeleteEnv) (urlID : Text) : Proc Panel Unit := do
  let pubkey ← Proc.lift (decodePeerID urlID)
  onHost (removePeer env.remove pubkey)
  let _ ← Proc.attempt (onTables env.deleteSecret fun t => { t with secrets := t.secrets.delete pubkey })
  let _ ← Proc.attempt (onTables env.deleteExpiry fun t => { t with expiry := t.expiry.delete pubkey })
  let _ ← Proc.attempt (onTables env.deleteCategory fun t => { t with category := t.category.delete pubkey })
  let _ ← Proc.attempt (onTables env.setMuted fun t => { t with muted := t.muted.delete pubkey })
  let _ ← Proc.attempt (onTables env.deleteForwardRules fun t => { t with forwardRules := t.forwardRules.delete urlID })

inductive Op
  | provision (env : ProvisionEnv) (name : Text)
  | disable (env : DisableEnv) (pubkey : Text)
  | enable (env : EnableEnv) (pubkey : Text)
  | delete (env : DeleteEnv) (urlID : Text)

def Op.apply (p : Panel) : Op → Panel
  | .provision env name => ((autoProvisionPeer env name).exec p).2
  | .disable env pubkey => ((disablePeer env pubkey).exec p).2
  | .enable env pubkey => ((apiEnablePeer env pubkey).exec p).2
  | .delete env urlID => ((apiDeletePeer env urlID).exec p).2

/-- The number of the peer's own address. -/
def ownValue (allowedIPs : List Text) : Option Nat := (parseCIDR (peerOwnAddress allowedIPs)).map fun r => r.1.value

def liveOwn (p : Panel) (key : Text) : Option Nat := (p.host.live.get key).bind fun peer => ownValue peer.allowedIPs

def disabledOwn (p : Panel) (key : Text) : Option Nat :=
  (p.tables.disabled.get key).bind fun dp => ownValue (disabledSpec dp).allowedIPs

/-- The peer has the address, live or put away. -/
def HasAddress (p : Panel) (key : Text) (v : Nat) : Prop := liveOwn p key = some v ∨ disabledOwn p key = some v

/-- No address is held by two peers, and the interface lists addresses between commas. -/
structure Tidy (p : Panel) : Prop where
  single : ∀ k k' v, HasAddress p k v → HasAddress p k' v → k = k'
  listed : ∀ k peer, p.host.live.get k = some peer → ∀ a ∈ peer.allowedIPs, ',' ∉ a

def serverCIDR (h : Host) : Text := firstCIDR (((parseConf h.file).interfaceGet "Address".toList).getD [])

/-- Neither the server nor a peer has the address. -/
structure Fresh (p : Panel) (a : Addr) : Prop where
  server : ∀ ip ipnet, parseCIDR (serverCIDR p.host) = some (ip, ipnet) → ip.value ≠ a.value
  live : ∀ key, liveOwn p key ≠ some a.value
  disabled : ∀ key, disabledOwn p key ≠ some a.value

def Op.HandsOutFresh (p : Panel) : Op → Prop
  | .provision env name => ∀ new, ((autoProvisionPeer env name).exec p).1 = some new →
      ∃ a : Addr, new.allowedIPs = [a.hostText] ∧ Fresh p a
  | _ => True

def LiveDistinct (p : Panel) : Prop := ∀ k k' v, liveOwn p k = some v → liveOwn p k' = some v → k = k'

/-- The address of no peer that is put away is the next to be given out. -/
def Op.Safe (p : Panel) : Op → Prop
  | .provision env _ => ∀ ip ipnet range, parseCIDR (serverCIDR p.host) = some (ip, ipnet) → env.range = some range →
      ∀ key dp b own, p.tables.disabled.get key = some dp →
        parseCIDR (peerOwnAddress (disabledSpec dp).allowedIPs) = some (b, own) →
        Passed ipnet range.1 range.2 (usedAddrs (serverCIDR p.host) p.host.peerRoutes) b
  | _ => True

section
variable {env : Env} {h : Host} {spec : PeerSpec} {key : Text}

theorem live_removePeer_or (env : Env) (id : Text) (h : Host) :
    ((removePeer env id).exec h).2.live = h.live ∨ ((removePeer env id).exec h).2.live = h.live.delete id := by
  rw [exec_removePeer]
  split
  · dsimp only
    cases env.remove with
    | true => exact .inr rfl
    | false => exact .inl rfl
  · exact .inl rfl

/-- The interface has the peer exactly if it could be added. -/
theorem live_addConfiguredPeer (env : Env) (key : Text) (spec : PeerSpec) (h : Host) :
    match (addConfiguredPeer env key spec).exec h with
    | (some _, h') => validateAllowedIPs spec.allowedIPs = true ∧
        h'.live = h.live.upsert key ⟨spec.allowedIPs, max spec.keepalive 0⟩
    | (none, h') => h'.live = h.live := by
  cases done : (addConfiguredPeer env key spec).exec h with
  | mk answer h' =>
    cases answer with
    | some u =>
      obtain ⟨passed, rfl⟩ := addConfiguredPeer_done env done
      simp only [admitted, Bool.and_eq_true] at passed
      exact ⟨passed.1.1.2, rfl⟩
    | none =>
      rw [exec_addConfiguredPeer, exec_writeConfAndApply] at done
      split at done
      · split at done
        · split at done
          · cases done
          · have after := (Prod.mk.inj done).2
            dsimp only
            rw [← after]
            split <;> rfl
        · exact congrArg Host.live (Prod.mk.inj done).2.symm
      · exact congrArg Host.live (Prod.mk.inj done).2.symm

end

/-- The address that a call comes to, if it gets so far. -/
def ProvisionEnv.assigned (env : ProvisionEnv) (h : Host) : Option Text :=
  if env.status.dump = .up ∧ env.status.readStatus = true ∧ serverCIDR h ≠ [] ∧ env.list.dump = .up ∧
      env.list.readConf = true then
    env.range.bind fun range => freeIP env.fuel (serverCIDR h) range h.peerRoutes
  else none

theorem exec_listPeers (env : Env) (h : Host) :
    (listPeers env).exec h = (if env.dump = .up ∧ env.readConf = true then some h.peerRoutes else none, h) := by
  unfold listPeers
  rw [Proc.exec_guard_bind, exec_readConf_bind]
  by_cases up : env.dump = .up <;> cases env.readConf <;> simp [up]

section
variable (env : ProvisionEnv) (name : Text) (p : Panel)

theorem exec_autoProvisionPeer :
    (autoProvisionPeer env name).exec p =
      match env.assigned p.host with
      | none => (none, p)
      | some free => (addAssigned env name free).exec p := by
  unfold autoProvisionPeer ProvisionEnv.assigned
  rw [Proc.exec_bind, onHost, Proc.exec_zoom, exec_status]
  cases env.status.dump with
  | error => rfl
  | down => rfl
  | up =>
    cases env.status.readStatus with
    | false => rfl
    | true =>
      simp only [if_true, true_and]
      rw [Proc.exec_guard_bind]
      change (if decide (serverCIDR p.host ≠ []) = true then _ else _) = _
      by_cases addressed : serverCIDR p.host = []
      · simp [addressed]
      · rw [if_pos (decide_eq_true addressed), Proc.exec_bind, onHost, Proc.exec_zoom, exec_listPeers]
        by_cases listed : env.list.dump = .up ∧ env.list.readConf = true
        · rw [if_pos listed, if_pos ⟨addressed, listed⟩]
          dsimp only
          rw [Proc.exec_lift_bind]
          cases env.range with
          | none => rfl
          | some range =>
            dsimp only [Option.bind_some]
            rw [Proc.exec_lift_bind]
            rw [← serverCIDR]
            cases freeIP env.fuel (serverCIDR p.host) range p.host.peerRoutes <;> rfl
        · rw [if_neg listed, if_neg fun all => listed all.2]

/-- Only the interface changes: it may have one peer more, with the address. -/
theorem addAssigned_effect (free : Text) :
    ((addAssigned env name free).exec p).2.tables.disabled = p.tables.disabled ∧
    (((addAssigned env name free).exec p).2.host.live = p.host.live ∨ ∃ pub,
      ((addAssigned env name free).exec p).2.host.live = p.host.live.upsert pub ⟨[free], 25⟩ ∨
      ((addAssigned env name free).exec p).2.host.live = (p.host.live.upsert pub ⟨[free], 25⟩).delete pub) := by
  unfold addAssigned
  rw [Proc.exec_bind, onHost, Proc.exec_zoom, exec_addPeer]
  cases generateKeyPair env.drawn with
  | none => exact ⟨rfl, .inl rfl⟩
  | some keys =>
    dsimp only
    have added := live_addConfiguredPeer env.add keys.2 ⟨name, [free], 25, []⟩ p.host
    revert added
    rcases (addConfiguredPeer env.add keys.2 ⟨name, [free], 25, []⟩).exec p.host with ⟨_ | _, h⟩
    · exact fun same => ⟨rfl, .inl same⟩
    · rintro ⟨_, live⟩
      dsimp only [Option.map_some]
      rw [Proc.exec_guard_bind]
      split
      · rw [Proc.exec_bind, exec_storeSecret]
        cases env.secret.stored keys.1 with
        | some blob => exact ⟨rfl, .inr ⟨keys.2, .inl live⟩⟩
        | none =>
          refine ⟨rfl, .inr ⟨keys.2, ?_⟩⟩
          dsimp only
          rcases live_removePeer_or env.secret.remove keys.2 h with same | gone
          · exact .inl (same.trans live)
          · exact .inr (gone.trans (congrArg (KeyTable.delete · keys.2) live))
      · exact ⟨rfl, .inr ⟨keys.2, .inl live⟩⟩

theorem addAssigned_allowedIPs {free : Text} {new : NewPeer} (done : ((addAssigned env name free).exec p).1 = some new) :
    new.allowedIPs = [free] := by
  obtain ⟨keys, p', _, rest⟩ := Proc.exec_bind_eq_some_iff.mp (Prod.ext done rfl)
  obtain ⟨_, _, _, rest⟩ := Proc.exec_bind_eq_some_iff.mp rest
  obtain ⟨_, _, _, rest⟩ := Proc.exec_bind_eq_some_iff.mp rest
  rw [← Option.some.inj (congrArg Prod.fst rest)]

end

section
variable {env : ProvisionEnv} {p p' : Panel} {name free key : Text}

/-- The own address is one of the peer's addresses. -/
theorem mem_of_parse_peerOwnAddress {allowedIPs : List Text} {r : Addr × IPNet}
    (read : parseCIDR (peerOwnAddress allowedIPs) = some r) : peerOwnAddress allowedIPs ∈ allowedIPs := by
  unfold peerOwnAddress at read ⊢
  cases found : allowedIPs.find? fun a => ((parseCIDR a).map fun r => r.2.isHost).getD false with
  | none =>
    rw [found] at read
    cases read
  | some a => exact List.mem_of_find?_eq_some found

theorem ownValue_hostText (a : Addr) : ownValue [a.hostText] = some a.value := by
  have host : ((parseCIDR a.hostText).map fun r => r.2.isHost).getD false = true := by
    rw [parseCIDR_hostText]
    exact decide_eq_true rfl
  have own : peerOwnAddress [a.hostText] = a.hostText := by
    rw [peerOwnAddress, List.find?_cons_of_pos (p := fun a => ((parseCIDR a).map fun r => r.2.isHost).getD false) host]
    rfl
  rw [ownValue, own, parseCIDR_hostText, Option.map_some, Addr.value_to4]

/-- What is put away comes back as it was. -/
theorem ownValue_disabledSpec {allowedIPs : List Text} (listed : ∀ a ∈ allowedIPs, ',' ∉ a) (keepalive : Int) :
    ownValue (disabledSpec ⟨name, [','].intercalate allowedIPs, keepalive⟩).allowedIPs = ownValue allowedIPs := by
  unfold disabledSpec
  dsimp only
  by_cases none : allowedIPs = []
  · rw [none]
    rfl
  · have split := List.splitOn_intercalate ',' listed none
    by_cases empty : [','].intercalate allowedIPs = []
    · have alone : allowedIPs = [[]] := by
        rw [empty] at split
        exact split.symm
      rw [alone]
      rfl
    · rw [if_pos empty, split]

theorem exists_usedAddrs_of_liveOwn {v : Nat} (own : liveOwn p key = some v) (cidr : Text) :
    ∃ u ∈ usedAddrs cidr p.host.peerRoutes, u.value = v := by
  obtain ⟨peer, live, value⟩ := Option.bind_eq_some_iff.mp own
  obtain ⟨⟨ip, net⟩, read, rfl⟩ := Option.map_eq_some_iff.mp value
  refine ⟨ip, List.mem_append_left _ (List.mem_flatMap.mpr ⟨⟨key, peer.allowedIPs⟩, ?_, ?_⟩), rfl⟩
  · exact List.mem_map.mpr ⟨(key, peer), KeyTable.get_eq_some_iff.mp live, rfl⟩
  · exact List.mem_filterMap.mpr ⟨_, mem_of_parse_peerOwnAddress read, by rw [read]; rfl⟩

theorem freeIP_chosen {fuel : Nat} {cidr : Text} {range : Text × Text} {peers : List PeerRoutes}
    (found : freeIP fuel cidr range peers = some free) :
    ∃ ip ipnet a, parseCIDR cidr = some (ip, ipnet) ∧ free = Addr.hostText a ∧
      Chosen ipnet range.1 range.2 (usedAddrs cidr peers) a := by
  obtain ⟨result, searched, ok⟩ := Option.bind_eq_some_iff.mp found
  cases result with
  | error e => cases ok
  | ok text =>
    cases ok
    exact nextFreeIPInRange_chosen searched

theorem assigned_chosen (found : env.assigned p.host = some free) :
    ∃ ip ipnet range a, parseCIDR (serverCIDR p.host) = some (ip, ipnet) ∧ env.range = some range ∧
      free = Addr.hostText a ∧ Chosen ipnet range.1 range.2 (usedAddrs (serverCIDR p.host) p.host.peerRoutes) a := by
  unfold ProvisionEnv.assigned at found
  split at found
  · obtain ⟨range, ranged, found⟩ := Option.bind_eq_some_iff.mp found
    obtain ⟨ip, ipnet, a, read, host, chosen⟩ := freeIP_chosen found
    exact ⟨ip, ipnet, range, a, read, ranged, host, chosen⟩
  · cases found

/-- An address is fresh if that of no peer that is put away is the next one. -/
theorem fresh_of_assigned (found : env.assigned p.host = some free) (safe : Op.Safe p (.provision env name)) :
    ∃ a : Addr, free = a.hostText ∧ Fresh p a := by
  obtain ⟨ip, ipnet, range, a, read, ranged, host, chosen⟩ := assigned_chosen found
  refine ⟨a, host, fun ip' ipnet' read' => ?_, fun key own => ?_, fun key own => ?_⟩
  · have member : ip' ∈ usedAddrs (serverCIDR p.host) p.host.peerRoutes := by
      refine List.mem_append_right _ ?_
      rw [read']
      exact List.mem_singleton.mpr rfl
    exact chosen.unused ip' member
  · obtain ⟨u, taken, same⟩ := exists_usedAddrs_of_liveOwn own (serverCIDR p.host)
    exact chosen.unused u taken same
  · obtain ⟨dp, row, value⟩ := Option.bind_eq_some_iff.mp own
    obtain ⟨⟨b, net⟩, parsed, same⟩ := Option.map_eq_some_iff.mp value
    exact chosen.ne_of_passed (safe ip ipnet range read ranged key dp b net row parsed) same

theorem liveOwn_of_get {peer : LivePeer} (live : p.host.live.get key = some peer) :
    liveOwn p key = ownValue peer.allowedIPs := by rw [liveOwn, live, Option.bind_some]

/-- Peers may go, and take the address they have with them where they are moved. -/
theorem Tidy.moves (tidy : Tidy p)
    (live : ∀ k peer, p'.host.live.get k = some peer → p.host.live.get k = some peer ∨
      (∀ a ∈ peer.allowedIPs, ',' ∉ a) ∧ ∀ v, ownValue peer.allowedIPs = some v → HasAddress p k v)
    (away : ∀ k dp, p'.tables.disabled.get k = some dp → p.tables.disabled.get k = some dp ∨
      ∀ v, ownValue (disabledSpec dp).allowedIPs = some v → HasAddress p k v) : Tidy p' := by
  have held : ∀ k v, HasAddress p' k v → HasAddress p k v := by
    rintro k v (own | own)
    · obtain ⟨peer, there, value⟩ := Option.bind_eq_some_iff.mp own
      rcases live k peer there with old | ⟨_, moved⟩
      · exact .inl ((liveOwn_of_get old).trans value)
      · exact moved v value
    · obtain ⟨dp, row, value⟩ := Option.bind_eq_some_iff.mp own
      rcases away k dp row with old | moved
      · exact .inr (by rw [disabledOwn, old, Option.bind_some, value])
      · exact moved v value
  refine ⟨fun k k' v one two => tidy.single k k' v (held k v one) (held k' v two), fun k peer there => ?_⟩
  rcases live k peer there with old | ⟨listed, _⟩
  · exact tidy.listed k peer old
  · exact listed

theorem get_delete_some {ν : Type} {t : KeyTable Text ν} {k : Text} {v : ν}
    (there : (t.delete key).get k = some v) : t.get k = some v := by
  rw [KeyTable.get_delete] at there
  split at there
  · cases there
  · exact there

theorem get_removePeer_some {env : Env} {h : Host} {k : Text} {peer : LivePeer}
    (there : ((removePeer env key).exec h).2.live.get k = some peer) : h.live.get k = some peer := by
  rcases live_removePeer_or env key h with same | gone
  · rwa [same] at there
  · rw [gone] at there
    exact get_delete_some there

/-- A peer with a fresh address may come. -/
theorem Tidy.add (tidy : Tidy p) {a : Addr} (fresh : Fresh p a) {pub : Text} {keepalive : Int}
    (disabled : p'.tables.disabled = p.tables.disabled)
    (live : ∀ k peer, p'.host.live.get k = some peer →
      (p.host.live.upsert pub ⟨[a.hostText], keepalive⟩).get k = some peer) : Tidy p' := by
  have entry : ∀ k peer, p'.host.live.get k = some peer →
      k = pub ∧ peer = ⟨[a.hostText], keepalive⟩ ∨ p.host.live.get k = some peer := by
    intro k peer there
    have inside := live k peer there
    rw [KeyTable.get_upsert] at inside
    split at inside
    · exact .inl ⟨‹_›, (Option.some.inj inside).symm⟩
    · exact .inr inside
  have held : ∀ k v, HasAddress p' k v → k = pub ∧ v = a.value ∨ HasAddress p k v ∧ v ≠ a.value := by
    rintro k v (own | own)
    · obtain ⟨peer, there, value⟩ := Option.bind_eq_some_iff.mp own
      rcases entry k peer there with ⟨rfl, rfl⟩ | old
      · rw [ownValue_hostText] at value
        exact .inl ⟨rfl, (Option.some.inj value).symm⟩
      · have same := (liveOwn_of_get old).trans value
        refine .inr ⟨.inl same, ?_⟩
        rintro rfl
        exact fresh.live k same
    · rw [disabledOwn, disabled] at own
      refine .inr ⟨.inr own, ?_⟩
      rintro rfl
      exact fresh.disabled k own
  refine ⟨fun k k' v one two => ?_, fun k peer there => ?_⟩
  · rcases held k v one with ⟨here, value⟩ | ⟨old, other⟩
    · rcases held k' v two with ⟨here', _⟩ | ⟨_, other⟩
      · exact here.trans here'.symm
      · exact absurd value other
    · rcases held k' v two with ⟨_, value⟩ | ⟨old', _⟩
      · exact absurd value other
      · exact tidy.single k k' v old old'
  · rcases entry k peer there with ⟨_, rfl⟩ | old
    · intro t member
      rw [List.mem_singleton.mp member]
      intro comma
      exact absurd rfl (textChar_plain (textChar_parseCIDR (parseCIDR_hostText a) ',' comma)).2
    · exact tidy.listed k peer old

theorem Tidy.provision (tidy : Tidy p) (safe : Op.Safe p (.provision env name)) :
    Tidy ((autoProvisionPeer env name).exec p).2 := by
  rw [exec_autoProvisionPeer]
  cases found : env.assigned p.host with
  | none => exact tidy
  | some free =>
    obtain ⟨a, rfl, fresh⟩ := fresh_of_assigned found safe
    dsimp only
    obtain ⟨disabled, same | ⟨pub, added | gone⟩⟩ := addAssigned_effect env name p a.hostText
    · exact tidy.moves (fun k peer there => .inl (by rwa [same] at there)) fun k dp row => .inl (by rwa [disabled] at row)
    · exact tidy.add fresh disabled fun k peer there => by rwa [added] at there
    · exact tidy.add fresh disabled fun k peer there => get_delete_some (by rwa [gone] at there)

theorem findListed_live {env : Env} {h : Host} {target : ListedPeer}
    (found : ((findListed env key).exec h).1 = some target) :
    ∃ peer, h.live.get key = some peer ∧ target.allowedIPs = peer.allowedIPs := by
  rw [exec_findListed] at found
  dsimp only at found
  split at found
  · obtain ⟨peer, live, rfl⟩ := Option.map_eq_some_iff.mp found
    exact ⟨peer, live, rfl⟩
  · cases found

theorem Tidy.disable (tidy : Tidy p) (env : DisableEnv) (pubkey : Text) :
    Tidy ((disablePeer env pubkey).exec p).2 := by
  rw [exec_disablePeer]
  cases found : ((findListed env.list pubkey).exec p.host).1 with
  | none => exact tidy
  | some target =>
    obtain ⟨peer, live, ips⟩ := findListed_live found
    let row : Store.DisabledPeer := ⟨target.name, [','].intercalate target.allowedIPs, target.keepalive⟩
    have saved : ∀ k dp, (p.tables.disabled.upsert pubkey row).get k = some dp →
        p.tables.disabled.get k = some dp ∨ ∀ v, ownValue (disabledSpec dp).allowedIPs = some v → HasAddress p k v := by
      intro k dp there
      rw [KeyTable.get_upsert] at there
      split at there
      · rename_i same
        cases there
        refine .inr fun v value => .inl ?_
        rw [ownValue_disabledSpec (ips ▸ tidy.listed pubkey peer live), ips] at value
        rw [same]
        exact (liveOwn_of_get live).trans value
      · exact .inl there
    cases env.saveDisabled with
    | false => exact tidy
    | true =>
      have fewer : ∀ k peer, ((removePeer env.remove pubkey).exec p.host).2.live.get k = some peer →
          p.host.live.get k = some peer := fun k peer there => get_removePeer_some there
      revert fewer
      simp only [if_true]
      rcases (removePeer env.remove pubkey).exec p.host with ⟨_ | _, h⟩
      · intro fewer
        refine tidy.moves (fun k peer there => .inl (fewer k peer there)) fun k dp there => saved k dp ?_
        revert there
        cases env.deleteDisabled with
        | true => exact get_delete_some
        | false => exact id
      · intro fewer
        exact tidy.moves (fun k peer there => .inl (fewer k peer there)) saved

theorem Tidy.enable (tidy : Tidy p) (env : EnableEnv) (pubkey : Text) :
    Tidy ((apiEnablePeer env pubkey).exec p).2 := by
  rw [exec_apiEnablePeer]
  cases found : (if env.getDisabled then p.tables.disabled.get pubkey else none) with
  | none => exact tidy
  | some dp =>
    have row : p.tables.disabled.get pubkey = some dp := by
      split at found
      · exact found
      · cases found
    have added := live_addConfiguredPeer env.add pubkey (disabledSpec dp) p.host
    revert added
    dsimp only
    rcases (addConfiguredPeer env.add pubkey (disabledSpec dp)).exec p.host with ⟨_ | _, h⟩
    · exact fun same => tidy.moves (fun k peer there => .inl (same ▸ there)) fun k dp there => .inl there
    · rintro ⟨valid, live⟩
      refine tidy.moves (fun k peer there => ?_) fun k dp there => .inl ?_
      · dsimp only at there
        rw [live, KeyTable.get_upsert] at there
        split at there
        · rename_i same
          cases there
          refine .inr ⟨fun a member comma => ((validateAllowedIPs_plain valid a member).2 ',' comma).2 rfl,
            fun v value => ?_⟩
          refine .inr ?_
          rw [disabledOwn, same, row, Option.bind_some]
          exact value
        · exact .inl there
      · revert there
        cases env.deleteDisabled with
        | true => exact get_delete_some
        | false => exact id

theorem Tidy.keeps_onTables {works : Bool} {f : Store.PeerTables → Store.PeerTables}
    (same : ∀ t, (f t).disabled = t.disabled) : Proc.Keeps Tidy (onTables works f) := by
  refine .bind (.guard works) fun _ => .modify fun q tidy => ?_
  exact tidy.moves (fun k peer there => .inl there) fun k dp row => .inl (same q.tables ▸ row)

theorem Tidy.keeps_apiDeletePeer (env : DeleteEnv) (urlID : Text) : Proc.Keeps Tidy (apiDeletePeer env urlID) := by
  refine .bind (.lift _) fun pubkey => .bind (.of_state fun q tidy => ?_) fun _ => ?_
  · exact tidy.moves (fun k peer there => .inl (get_removePeer_some there)) fun k dp row => .inl row
  · refine .bind (.attempt (keeps_onTables fun _ => rfl)) fun _ => ?_
    refine .bind (.attempt (keeps_onTables fun _ => rfl)) fun _ => ?_
    refine .bind (.attempt (keeps_onTables fun _ => rfl)) fun _ => ?_
    refine .bind (.attempt (keeps_onTables fun _ => rfl)) fun _ => ?_
    exact .bind (.attempt (keeps_onTables fun _ => rfl)) fun _ => .pure _

theorem Tidy.apply (tidy : Tidy p) {op : Op} (safe : op.Safe p) : Tidy (op.apply p) := by
  cases op with
  | provision env name => exact tidy.provision safe
  | disable env pubkey => exact tidy.disable env pubkey
  | enable env pubkey => exact tidy.enable env pubkey
  | delete env urlID => exact (keeps_apiDeletePeer env urlID).state (fun _ _ holds => holds) tidy

theorem Tidy.liveDistinct (tidy : Tidy p) : LiveDistinct p :=
  fun k k' v one two => tidy.single k k' v (.inl one) (.inl two)

theorem handsOutFresh {op : Op} (safe : op.Safe p) : op.HandsOutFresh p := by
  cases op with
  | provision env name =>
    intro new done
    rw [exec_autoProvisionPeer] at done
    cases found : env.assigned p.host with
    | none =>
      rw [found] at done
      cases done
    | some free =>
      rw [found] at done
      obtain ⟨a, rfl, fresh⟩ := fresh_of_assigned found safe
      exact ⟨a, addAssigned_allowedIPs env name p done, fresh⟩
  | disable env pubkey => trivial
  | enable env pubkey => trivial
  | delete env urlID => trivial

/-- Within the networks that the search is exact for, nothing less will do. -/
theorem safe_of_handsOutFresh {new : NewPeer} {ip : Addr} {ipnet : IPNet}
    (done : ((autoProvisionPeer env name).exec p).1 = some new)
    (read : parseCIDR (serverCIDR p.host) = some (ip, ipnet)) (long : 1 ≤ ipnet.ones) (apart : Apart ipnet)
    (fresh : (Op.provision env name).HandsOutFresh p) : (Op.provision env name).Safe p := by
  obtain ⟨a', ips, fresh⟩ := fresh new done
  rw [exec_autoProvisionPeer] at done
  cases found : env.assigned p.host with
  | none =>
    rw [found] at done
    cases done
  | some free =>
    rw [found] at done
    obtain ⟨ip', net', range', a, read', ranged', rfl, chosen⟩ := assigned_chosen found
    have same : a.value = a'.value := by
      have own := ownValue_hostText a
      rw [← addAssigned_allowedIPs env name p done, ips, ownValue_hostText] at own
      exact (Option.some.inj own).symm
    intro ip'' net'' range'' read'' ranged'' key dp b own row parsed
    rw [read] at read' read''
    rw [ranged'] at ranged''
    cases read'
    cases read''
    cases ranged''
    refine (chosen.passed_iff long apart).mpr fun equal => fresh.disabled key ?_
    rw [disabledOwn, row, Option.bind_some, ownValue, parsed, Option.map_some, equal, same]

end

/-- As long as the address of no peer that is put away is the next to be given out,
addresses are fresh, and live peers have different ones. -/
theorem assigned_addresses_distinct {p : Panel} (tidy : Tidy p) {ops : List Op}
    (safe : Run.Meets Op.apply (fun p op => op.Safe p) p ops) :
    Run.Meets Op.apply (fun p op => op.HandsOutFresh p) p ops ∧
    (∀ first, first <+: ops → LiveDistinct (Run.after Op.apply p first)) ∧
    ∀ (p : Panel) (env : ProvisionEnv) (name : Text) (new : NewPeer) (ip : Addr) (ipnet : IPNet),
      ((autoProvisionPeer env name).exec p).1 = some new → parseCIDR (serverCIDR p.host) = some (ip, ipnet) →
      1 ≤ ipnet.ones → Apart ipnet → ((Op.provision env name).HandsOutFresh p ↔ (Op.provision env name).Safe p) := by
  have keep : ∀ p (op : Op), Tidy p → op.Safe p → Tidy (op.apply p) := fun _ _ tidy safe => tidy.apply safe
  refine ⟨safe.imp Tidy keep (fun p op _ safe => handsOutFresh safe) tidy, ?_, ?_⟩
  · rintro first ⟨rest, rfl⟩
    exact ((Run.Meets.append.mp safe).1.invariant Tidy keep tidy).liveDistinct
  · exact fun p env name new ip ipnet done read long apart =>
      ⟨safe_of_handsOutFresh done read long apart, handsOutFresh⟩

def poolEnv : ProvisionEnv where
  fuel := 8
  drawn := some ([1], [2])

/-- A server without peers, but for one that is put away. -/
def awayPanel : Panel :=
  ⟨⟨"[Interface]\nAddress = 10.8.0.1/24\n".toList, [], 0, KeyTable.empty⟩,
    { disabled := KeyTable.empty.upsert "a2V5".toList ⟨"a".toList, "10.8.0.9/32".toList, 0⟩ }⟩

theorem awayPanel_disabled {k : Text} {dp : Store.DisabledPeer} (row : awayPanel.tables.disabled.get k = some dp) :
    k = "a2V5".toList ∧ dp = ⟨"a".toList, "10.8.0.9/32".toList, 0⟩ := by
  have member := KeyTable.get_eq_some_iff.mp row
  obtain ⟨rfl, rfl⟩ := Prod.mk.inj (List.mem_singleton.mp member)
  exact ⟨rfl, rfl⟩

/-- The smallest free address is not that of the peer that is put away. -/
theorem assigned_addresses_distinct_sample :
    Run.Meets Op.apply (fun p op => op.HandsOutFresh p) awayPanel [.provision poolEnv "b".toList] ∧
      ∀ first, first <+: [.provision poolEnv "b".toList] → LiveDistinct (Run.after Op.apply awayPanel first) := by
  have tidy : Tidy awayPanel := by
    have only : ∀ k v, HasAddress awayPanel k v → k = "a2V5".toList := by
      rintro k v (live | away)
      · cases live
      · obtain ⟨dp, row, _⟩ := Option.bind_eq_some_iff.mp away
        exact (awayPanel_disabled row).1
    exact ⟨fun k k' v one two => (only k v one).trans (only k' v two).symm, fun k peer there => by cases there⟩
  have safe : (Op.provision poolEnv "b".toList).Safe awayPanel := by
    have server : parseCIDR (serverCIDR awayPanel.host) = some (.v4 0x0a080001#32, ⟨.v4 0x0a080000#32, 24⟩) := by
      decide +kernel
    have used : usedAddrs (serverCIDR awayPanel.host) awayPanel.host.peerRoutes = [.v4 0x0a080001#32] := by
      decide +kernel
    have own : parseCIDR "10.8.0.9/32".toList = some (.v4 0x0a080009#32, ⟨.v4 0x0a080009#32, 32⟩) := by decide +kernel
    intro ip ipnet range read ranged key dp b net row parsed
    obtain ⟨-, rfl⟩ := awayPanel_disabled row
    have first : peerOwnAddress (disabledSpec ⟨"a".toList, "10.8.0.9/32".toList, 0⟩).allowedIPs =
        "10.8.0.9/32".toList := by
      decide +kernel
    rw [first, own] at parsed
    rw [server] at read
    cases parsed
    cases read
    cases ranged
    rw [used]
    have apart : Apart ⟨.v4 0x0a080000#32, 24⟩ := fun _ six => by cases six
    refine .inr (.inr (.inr ⟨by decide, apart, fun _ => ⟨.v4 0x0a080002#32, ?_, by decide⟩⟩))
    refine ⟨by decide +kernel, fun s start => ?_, fun e last => ?_, by decide, by decide⟩
    · rw [parseIP_nil] at start
      cases start
    · rw [parseIP_nil] at last
      cases last
  have meets : Run.Meets Op.apply (fun p op => op.Safe p) awayPanel [.provision poolEnv "b".toList] := ⟨safe, trivial⟩
  obtain ⟨fresh, distinct, -⟩ := assigned_addresses_distinct tidy meets
  exact ⟨fresh, distinct⟩

def busyPanel : Panel :=
  ⟨⟨"[Interface]\nAddress = 10.8.0.1/24\n\n# Name: a\n[Peer]\nPublicKey = a2V5\nAllowedIPs = 10.8.0.2/32\n".toList, [], 0,
    KeyTable.empty.upsert "a2V5".toList ⟨["10.8.0.2/32".toList], 0⟩⟩, {}⟩

/-- The address of a peer that is put away is given to another one, and then both are
on the interface and in the file with it. -/
theorem assigned_address_twice :
    let away := Run.after Op.apply busyPanel [.disable {} "a2V5".toList]
    let back := Run.after Op.apply away [.provision poolEnv "b".toList, .enable {} "a2V5".toList]
    disabledOwn away "a2V5".toList = ownValue ["10.8.0.2/32".toList] ∧
    ((autoProvisionPeer poolEnv "b".toList).exec away).1.map NewPeer.allowedIPs = some ["10.8.0.2/32".toList] ∧
    liveOwn back "a2V5".toList = ownValue ["10.8.0.2/32".toList] ∧
    liveOwn back "Ag==".toList = ownValue ["10.8.0.2/32".toList] ∧
    (parseConf back.host.file).peers.map ConfPeer.allowedIPs = [["10.8.0.2/32".toList], ["10.8.0.2/32".toList]] := by
  decide +kernel

end Protean.WgFamily
