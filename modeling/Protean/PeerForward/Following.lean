import Protean.Access.Records
import Protean.Inet
import Protean.PeerForward.Sync
import Protean.Placement
import Protean.Run

/- The destinations of a peer are stored under the peer and enforced at its
address: over a run of everything that changes the addresses of the peers. -/
namespace Protean.PeerForward

open Access (ProviderType PeerRef)
open Placement (Same View Followed Leaves)

def peerAddressIsStable : ProviderType → Bool
  | .wireguard | .amneziawg | .openvpn => true
  | _ => false

/-- A peer as its provider lists it. -/
structure ListedPeer where
  publicKey : Text
  allowedIPs : List Text
  deriving DecidableEq, Repr

def peerTunnelAddress (peers : List ListedPeer) (pubkey : Text) : Option Text :=
  (peers.find? fun p => p.publicKey = pubkey ∧ p.allowedIPs ≠ []).bind fun p => p.allowedIPs.head?

/-- The addresses that a peer is given, and the one it has from a pool while it
is connected. -/
structure Tunnel where
  allowedIPs : List Text
  virtualAddress : Text := []
  deriving DecidableEq, Repr

def Tunnel.listed (t : Tunnel) : List Text :=
  if t.allowedIPs = [] ∧ t.virtualAddress ≠ [] then [t.virtualAddress] else t.allowedIPs

/-- One host with its providers, and the rows of their peers. Each sync of the
host replaces the rules of its address, so the host is what is allowed for each. -/
structure Deployment where
  peers : KeyTable PeerRef Tunnel := KeyTable.empty
  rules : KeyTable PeerRef (List Text) := KeyTable.empty
  host : KeyTable Text (List Text) := KeyTable.empty

def Deployment.listPeers (w : Deployment) (provider : Text) : List ListedPeer :=
  (w.peers.rows.filter fun r => r.1.1 = provider).map fun r => ⟨r.1.2, r.2.listed⟩

/-- The arguments with which the host is called. -/
def syncTarget (peerAddr : Text) (allowed : List Text) : Option (Text × List Text) := do
  let addr ← normalizeHostOrCIDR peerAddr
  let norm ← allowed.mapM normalizeHostOrCIDR
  return (addr, norm)

/-- A full replacement, after which an empty list is no list. -/
def setList {κ : Type} [DecidableEq κ] (t : KeyTable κ (List Text)) (k : κ) (list : List Text) : KeyTable κ (List Text) :=
  if list = [] then t.delete k else t.upsert k list

/-- Without destinations there is no restriction. -/
def sync (host : KeyTable Text (List Text)) (target : Text × List Text) : KeyTable Text (List Text) :=
  setList host target.1 target.2

/-- `store.SetPeerForwardRules`. -/
def setRules (rules : KeyTable PeerRef (List Text)) (row : PeerRef) (dests : List Text) : KeyTable PeerRef (List Text) :=
  setList rules row dests

def cleanDestinations (destinations : List Text) : List Text := (destinations.map Text.trimSpace).filter (· ≠ [])

/-- OpenVPN keeps one address, and the networks. -/
def splitClientAllowedIPs (allowed : List Text) : Text × List Text :=
  let parsed := allowed.filterMap fun a => (Inet.parseCIDR a).map fun r => (a, r.2.isHost)
  (((parsed.filter Prod.snd).map Prod.fst).headD [], (parsed.filter fun r => !r.2).map Prod.fst)

def configured (type : ProviderType) (allowed : List Text) : List Text :=
  match type with
  | .openvpn =>
    let (address, subnets) := splitClientAllowedIPs allowed
    (if address ≠ [] then [address] else []) ++ subnets
  | _ => allowed

/-- What happens to the peers of the host. The list of peers may be cached, and
a key is drawn for a rotation. -/
inductive Event
  | put (provider id : Text) (destinations : List Text) (cached : Option (List ListedPeer))
  | update (provider id : Text) (allowedIPs : List Text)
  | delete (provider id : Text)
  | rotate (provider id pub : Text)
  | create (provider pubkey : Text) (allowedIPs : List Text)
  | reconnect (provider cn virtualAddress : Text)
  | reapply
  deriving DecidableEq, Repr

section
variable (types : Text → Option ProviderType) (w : Deployment)

/-- The call of the host that `apiPeerForwardRulesPut` makes, if it comes to it. -/
def putTarget (provider id : Text) (destinations : List Text) (cached : Option (List ListedPeer)) :
    Option (Text × List Text) := do
  let pubkey ← decodePeerID id
  let type ← types provider
  if peerAddressIsStable type then
    let addr ← peerTunnelAddress (cached.getD (w.listPeers provider)) pubkey
    syncTarget addr (cleanDestinations destinations)
  else none

def apiPeerForwardRulesPut (provider id : Text) (destinations : List Text) (cached : Option (List ListedPeer)) :
    Deployment :=
  match putTarget types w provider id destinations cached with
  | none => w
  | some target =>
    { w with
      host := sync w.host target
      rules := setRules w.rules (provider, id) (cleanDestinations destinations) }

def updated (provider id : Text) (allowedIPs : List Text) : Option (PeerRef × Tunnel) := do
  let pubkey ← decodePeerID id
  let type ← types provider
  let t ← w.peers.get (provider, pubkey)
  return ((provider, pubkey), { t with allowedIPs := configured type allowedIPs })

/-- A certificate client is issued again under the same name, another peer is refused. -/
def created (provider pubkey : Text) (allowedIPs : List Text) : Option (PeerRef × Tunnel) := do
  let type ← types provider
  match w.peers.get (provider, pubkey) with
  | none => some ((provider, pubkey), { allowedIPs := configured type allowedIPs })
  | some t =>
    if type.certBased then some ((provider, pubkey), { t with allowedIPs := configured type allowedIPs }) else none

def reconnected (provider cn virtualAddress : Text) : Option (PeerRef × Tunnel) := do
  let type ← types provider
  let t ← w.peers.get (provider, cn)
  if type = .openvpn then some ((provider, cn), { t with virtualAddress := virtualAddress }) else none

def Deployment.place (moved : Option (PeerRef × Tunnel)) : Deployment :=
  match moved with
  | none => w
  | some (q, t) => { w with peers := w.peers.upsert q t }

/-- A certificate client that is not there is removed all the same. -/
def deleted (provider id : Text) : Option PeerRef := do
  let pubkey ← decodePeerID id
  let type ← types provider
  if type.certBased ∨ (w.peers.get (provider, pubkey)).isSome then some (provider, pubkey) else none

def apiDeletePeer (provider id : Text) : Deployment :=
  match deleted types w provider id with
  | none => w
  | some q => { w with peers := w.peers.delete q, rules := w.rules.delete (provider, id) }

/-- The old and the new key, and what the peer keeps. -/
def rotated (provider id pub : Text) : Option (PeerRef × PeerRef × Tunnel) := do
  let pubkey ← decodePeerID id
  let type ← types provider
  let t ← w.peers.get (provider, pubkey)
  if type.autoProvisionable ∧ (w.peers.get (provider, pub)).isNone then some ((provider, pubkey), (provider, pub), t)
  else none

def apiRotatePeer (provider id pub : Text) : Deployment :=
  match rotated types w provider id pub with
  | none => w
  | some (old, new, t) => { w with peers := (w.peers.delete old).upsert new t }

/-- The rows that belong to a peer with an address, in the order of the list. -/
def reapplyTargets : List (Text × List Text) :=
  w.rules.rows.filterMap fun r => do
    let _ ← types r.1.1
    let pubkey ← decodePeerID r.1.2
    let addr ← peerTunnelAddress (w.listPeers r.1.1) pubkey
    syncTarget addr r.2

def reapplyPeerForwardRules : Deployment := { w with host := (reapplyTargets types w).foldl sync w.host }

def step : Event → Deployment
  | .put provider id destinations cached => apiPeerForwardRulesPut types w provider id destinations cached
  | .update provider id allowedIPs => w.place (updated types w provider id allowedIPs)
  | .delete provider id => apiDeletePeer types w provider id
  | .rotate provider id pub => apiRotatePeer types w provider id pub
  | .create provider pubkey allowedIPs => w.place (created types w provider pubkey allowedIPs)
  | .reconnect provider cn virtualAddress => w.place (reconnected types w provider cn virtualAddress)
  | .reapply => reapplyPeerForwardRules types w

end

/-- As the host is given it: with the length of a single address. -/
def hostAddr (a : Text) : Text := (normalizeHostOrCIDR a).getD a

def Tunnel.address (t : Tunnel) : Option Text := t.listed.head?.map hostAddr

/-- The row in which the panel keeps what it stores for a peer. -/
def urlRow (q : PeerRef) : PeerRef := (q.1, encodePeerID q.2)

def Deployment.view (w : Deployment) : View PeerRef Text Text where
  place q := (w.peers.get q).bind Tunnel.address
  wanted q := ((w.rules.get (urlRow q)).getD []).map hostAddr
  inForce a := (w.host.get a).getD []

/-- The peer has the restrictions of its new address already, and leaves none behind. -/
def PlaceSafe (w : Deployment) (moved : Option (PeerRef × Tunnel)) : Prop :=
  ∀ q t, moved = some (q, t) → t.address = w.view.place q ∨
    (∀ b, t.address = some b → Same (w.view.inForce b) (w.view.wanted q)) ∧ Leaves w.view q

/-- The address is a peer's, and it is the only one with it and with the row,
unless the others have the same list. -/
def PutSafe (w : Deployment) (row : PeerRef) (target : Option (Text × List Text)) : Prop :=
  ∀ addr norm, target = some (addr, norm) → ((∃ q, w.view.place q = some addr) ∨ norm = []) ∧
    ∀ q b, w.view.place q = some b → ((b = addr ↔ urlRow q = row) ∨ Same norm (w.view.wanted q))

/-- The peer leaves no restriction behind, and the row is no other peer's. -/
def DeleteSafe (w : Deployment) (row : PeerRef) (gone : Option PeerRef) : Prop :=
  ∀ q, gone = some q → Leaves w.view q ∧
    ∀ q', q' ≠ q → urlRow q' = row → (w.view.place q').isSome = true → w.view.wanted q' = []

/-- The new key has the list of the old one. -/
def RotateSafe (w : Deployment) (renamed : Option (PeerRef × PeerRef × Tunnel)) : Prop :=
  ∀ old new t, renamed = some (old, new, t) →
    ∀ a, w.view.place old = some a → Same (w.view.wanted old) (w.view.wanted new)

/-- The last row for an address has the list that is in force there. -/
def ReapplySafe (w : Deployment) (targets : List (Text × List Text)) : Prop :=
  ∀ addr norm, targets.reverse.lookup addr = some norm → Same norm (w.view.inForce addr)

/-- What each event must meet for the restrictions to follow the peers. -/
def Safe (types : Text → Option ProviderType) (w : Deployment) : Event → Prop
  | .put provider id destinations cached => PutSafe w (provider, id) (putTarget types w provider id destinations cached)
  | .update provider id allowedIPs => PlaceSafe w (updated types w provider id allowedIPs)
  | .delete provider id => DeleteSafe w (provider, id) (deleted types w provider id)
  | .rotate provider id pub => RotateSafe w (rotated types w provider id pub)
  | .create provider pubkey allowedIPs => PlaceSafe w (created types w provider pubkey allowedIPs)
  | .reconnect provider cn virtualAddress => PlaceSafe w (reconnected types w provider cn virtualAddress)
  | .reapply => ReapplySafe w (reapplyTargets types w)

section
variable {types : Text → Option ProviderType} {w : Deployment}

theorem syncTarget_eq_some {peerAddr addr : Text} {allowed norm : List Text}
    (target : syncTarget peerAddr allowed = some (addr, norm)) :
    addr = hostAddr peerAddr ∧ norm = allowed.map hostAddr := by
  simp only [syncTarget, Option.bind_eq_bind, Option.bind_eq_some_iff, Option.pure_def, Option.some.injEq,
    Prod.mk.injEq] at target
  obtain ⟨addr', read, norm', all, rfl, rfl⟩ := target
  refine ⟨by rw [hostAddr, read, Option.getD_some], ?_⟩
  clear read
  induction allowed generalizing norm' with
  | nil => simpa using all.symm
  | cons a allowed ih =>
    simp only [List.mapM_cons, Option.bind_eq_bind, Option.bind_eq_some_iff, Option.pure_def, Option.some.injEq] at all
    obtain ⟨first, read, rest, all, rfl⟩ := all
    rw [List.map_cons, ← ih rest all, hostAddr, read, Option.getD_some]

theorem getD_setList {κ : Type} [DecidableEq κ] (t : KeyTable κ (List Text)) (k k' : κ) (list : List Text) :
    ((setList t k list).get k').getD [] = if k' = k then list else (t.get k').getD [] := by
  unfold setList
  split
  · rename_i empty
    rw [KeyTable.get_delete]
    split
    · rw [empty]
      rfl
    · rfl
  · rw [KeyTable.get_upsert]
    split <;> rfl

theorem place_upsert (q : PeerRef) (t : Tunnel) (w : Deployment) :
    ({ w with peers := w.peers.upsert q t } : Deployment).view =
      { w.view with place := Function.update w.view.place q t.address } := by
  have place : (fun q' => ((w.peers.upsert q t).get q').bind Tunnel.address) =
      Function.update (fun q' => (w.peers.get q').bind Tunnel.address) q t.address := by
    funext q'
    rw [KeyTable.get_upsert, Function.update_apply]
    split <;> rfl
  exact congrArg (fun place => { w.view with place := place }) place

/-- An event that gives a peer its addresses. -/
theorem followed_place_iff (followed : Followed w.view) (moved : Option (PeerRef × Tunnel)) :
    Followed (w.place moved).view ↔ PlaceSafe w moved := by
  cases moved with
  | none => exact iff_of_true followed nofun
  | some result =>
    obtain ⟨q, t⟩ := result
    have all : PlaceSafe w (some (q, t)) ↔ t.address = w.view.place q ∨
        (∀ b, t.address = some b → Same (w.view.inForce b) (w.view.wanted q)) ∧ Leaves w.view q := by
      constructor
      · exact fun safe => safe q t rfl
      · rintro safe q' t' same
        cases same
        exact safe
    rw [all, ← followed.move_iff q t.address, ← place_upsert]
    rfl

theorem view_put (provider id addr : Text) (dests norm : List Text) (same : norm = dests.map hostAddr) :
    ({ w with host := sync w.host (addr, norm), rules := setRules w.rules (provider, id) dests } : Deployment).view =
      { w.view with
        wanted := fun q => if urlRow q = (provider, id) then norm else w.view.wanted q
        inForce := Function.update w.view.inForce addr norm } := by
  have wanted : (fun q => (((setRules w.rules (provider, id) dests).get (urlRow q)).getD []).map hostAddr) =
      fun q => if urlRow q = (provider, id) then norm else w.view.wanted q := by
    funext q
    rw [setRules, getD_setList, same]
    split <;> rfl
  have inForce : (fun a => ((sync w.host (addr, norm)).get a).getD []) = Function.update w.view.inForce addr norm := by
    funext a
    rw [sync, getD_setList, Function.update_apply]
    rfl
  unfold Deployment.view at wanted inForce ⊢
  dsimp only
  rw [wanted, inForce]

theorem followed_put_iff (followed : Followed w.view) (provider id : Text) (destinations : List Text)
    (cached : Option (List ListedPeer)) :
    Followed (apiPeerForwardRulesPut types w provider id destinations cached).view ↔
      PutSafe w (provider, id) (putTarget types w provider id destinations cached) := by
  unfold apiPeerForwardRulesPut
  cases target : putTarget types w provider id destinations cached with
  | none => exact iff_of_true followed nofun
  | some result =>
    obtain ⟨addr, norm⟩ := result
    have same : norm = (cleanDestinations destinations).map hostAddr := by
      simp only [putTarget, Option.bind_eq_bind, Option.bind_eq_some_iff] at target
      obtain ⟨_, _, _, _, target⟩ := target
      split at target
      · obtain ⟨_, _, target⟩ := Option.bind_eq_some_iff.mp target
        exact (syncTarget_eq_some target).2
      · cases target
    dsimp only
    rw [view_put provider id addr _ norm same, followed.assign_iff]
    constructor
    · rintro safe addr' norm' found
      cases found
      exact safe
    · exact fun safe => safe addr norm rfl

theorem followed_delete_iff (followed : Followed w.view) (provider id : Text) :
    Followed (apiDeletePeer types w provider id).view ↔ DeleteSafe w (provider, id) (deleted types w provider id) := by
  unfold apiDeletePeer
  cases target : deleted types w provider id with
  | none => exact iff_of_true followed nofun
  | some q =>
    have view : ({ w with peers := w.peers.delete q, rules := w.rules.delete (provider, id) } : Deployment).view =
        { w.view with
          place := Function.update w.view.place q none
          wanted := fun q' => if urlRow q' = (provider, id) then [] else w.view.wanted q' } := by
      have place : (fun q' => ((w.peers.delete q).get q').bind Tunnel.address) =
          Function.update w.view.place q none := by
        funext q'
        rw [KeyTable.get_delete, Function.update_apply]
        split <;> rfl
      have wanted : (fun q' => (((w.rules.delete (provider, id)).get (urlRow q')).getD []).map hostAddr) =
          fun q' => if urlRow q' = (provider, id) then [] else w.view.wanted q' := by
        funext q'
        rw [KeyTable.get_delete]
        split <;> rfl
      unfold Deployment.view at place wanted ⊢
      dsimp only
      rw [place, wanted]
    dsimp only
    rw [view, followed.remove_iff]
    constructor
    · rintro safe q' found
      cases found
      exact safe
    · exact fun safe => safe q rfl

theorem followed_rotate_iff (followed : Followed w.view) (provider id pub : Text) :
    Followed (apiRotatePeer types w provider id pub).view ↔ RotateSafe w (rotated types w provider id pub) := by
  unfold apiRotatePeer
  cases target : rotated types w provider id pub with
  | none => exact iff_of_true followed nofun
  | some result =>
    obtain ⟨old, new, t⟩ := result
    have found : w.peers.get old = some t ∧ w.peers.get new = none := by
      simp only [rotated, Option.bind_eq_bind, Option.bind_eq_some_iff] at target
      obtain ⟨_, _, _, _, t', there, target⟩ := target
      split at target
      · rename_i checked
        cases target
        exact ⟨there, Option.isNone_iff_eq_none.mp checked.2⟩
      · cases target
    have absent : w.view.place new = none := by
      show (w.peers.get new).bind _ = none
      rw [found.2]
      rfl
    have view : ({ w with peers := (w.peers.delete old).upsert new t } : Deployment).view =
        { w.view with place := Function.update (Function.update w.view.place old none) new (w.view.place old) } := by
      have place : (fun q => (((w.peers.delete old).upsert new t).get q).bind Tunnel.address) =
          Function.update (Function.update w.view.place old none) new (w.view.place old) := by
        funext q
        rw [KeyTable.get_upsert, KeyTable.get_delete, Function.update_apply, Function.update_apply]
        unfold Deployment.view
        dsimp only
        rw [found.1]
        split
        · rfl
        · split <;> rfl
      unfold Deployment.view at place ⊢
      dsimp only
      rw [place]
    dsimp only
    rw [view, followed.rename_iff absent]
    constructor
    · rintro safe old' new' t' same
      cases same
      exact safe
    · exact fun safe => safe old new t rfl

/-- The last of the calls for an address decides. -/
theorem getD_foldl_sync (targets : List (Text × List Text)) (host : KeyTable Text (List Text)) (a : Text) :
    ((targets.foldl sync host).get a).getD [] = (targets.reverse.lookup a).getD ((host.get a).getD []) := by
  induction targets using List.reverseRecOn with
  | nil => rfl
  | append_singleton targets target ih =>
    rw [List.foldl_append, List.foldl_cons, List.foldl_nil, sync, getD_setList, ih, List.reverse_append,
      List.reverse_singleton, List.singleton_append, List.lookup_cons]
    by_cases here : a = target.1
    · rw [if_pos here, beq_iff_eq.mpr here]
      rfl
    · rw [if_neg here, beq_false_of_ne here]

/-- A peer that is listed with an address is one of the peers. -/
theorem place_of_peerTunnelAddress {provider pubkey addr : Text}
    (found : peerTunnelAddress (w.listPeers provider) pubkey = some addr) :
    w.view.place (provider, pubkey) = some (hostAddr addr) := by
  obtain ⟨p, listed, head⟩ := Option.bind_eq_some_iff.mp found
  have checked : p.publicKey = pubkey ∧ p.allowedIPs ≠ [] := by simpa using List.find?_some listed
  obtain ⟨r, member, rfl⟩ := List.mem_map.mp (List.mem_of_find?_eq_some listed)
  obtain ⟨inRows, own⟩ := List.mem_filter.mp member
  obtain ⟨⟨prov, key⟩, t⟩ := r
  obtain rfl : prov = provider := of_decide_eq_true own
  obtain rfl : key = pubkey := checked.1
  show (w.peers.get (prov, key)).bind Tunnel.address = _
  rw [KeyTable.get_eq_some_iff.mpr inRows]
  exact congrArg (Option.map hostAddr) head

theorem place_of_mem_reapplyTargets {target : Text × List Text} (member : target ∈ reapplyTargets types w) :
    ∃ q, w.view.place q = some target.1 := by
  obtain ⟨r, _, made⟩ := List.mem_filterMap.mp member
  simp only [Option.bind_eq_bind, Option.bind_eq_some_iff] at made
  obtain ⟨_, _, pubkey, _, addr, found, made⟩ := made
  exact ⟨_, (place_of_peerTunnelAddress found).trans (congrArg some (syncTarget_eq_some made).1.symm)⟩

theorem followed_reapply_iff (followed : Followed w.view) :
    Followed (reapplyPeerForwardRules types w).view ↔ ReapplySafe w (reapplyTargets types w) := by
  have inForce : (reapplyPeerForwardRules types w).view = { w.view with
      inForce := fun a => ((reapplyTargets types w).reverse.lookup a).getD (w.view.inForce a) } := by
    have fold : (fun a => (((reapplyTargets types w).foldl sync w.host).get a).getD []) =
        fun a => ((reapplyTargets types w).reverse.lookup a).getD (w.view.inForce a) :=
      funext fun a => getD_foldl_sync _ _ a
    exact congrArg (fun inForce => { w.view with inForce := inForce }) fold
  have kept : ∀ a, (∀ q, w.view.place q ≠ some a) →
      ((reapplyTargets types w).reverse.lookup a).getD (w.view.inForce a) = w.view.inForce a := by
    intro a free
    cases last : (reapplyTargets types w).reverse.lookup a with
    | none => rfl
    | some norm =>
      obtain ⟨before, after, split, _⟩ := List.lookup_eq_some_iff.mp last
      have member : (a, norm) ∈ (reapplyTargets types w).reverse := by rw [split]; simp
      obtain ⟨q, there⟩ := place_of_mem_reapplyTargets (List.mem_reverse.mp member)
      exact absurd there (free q)
  rw [inForce, followed.enforce_iff kept]
  constructor
  · intro same addr norm last
    have here := same addr
    rwa [last] at here
  · intro safe a
    cases last : (reapplyTargets types w).reverse.lookup a with
    | none => exact .refl _
    | some norm => exact safe a norm last

/-- One event keeps the restrictions with the peers exactly if it is safe. -/
theorem followed_step_iff (followed : Followed w.view) (e : Event) : Followed (step types w e).view ↔ Safe types w e := by
  cases e with
  | put provider id destinations cached => exact followed_put_iff followed provider id destinations cached
  | update provider id allowedIPs | create provider pubkey allowedIPs => exact followed_place_iff followed _
  | delete provider id => exact followed_delete_iff followed provider id
  | rotate provider id pub => exact followed_rotate_iff followed provider id pub
  | reconnect provider cn virtualAddress => exact followed_place_iff followed _
  | reapply => exact followed_reapply_iff followed

/-- Over a run, the host restricts every address as its peer wants it, and no
other address, exactly if every event is safe. -/
theorem restrictions_follow_iff (types : Text → Option ProviderType) {w : Deployment} (start : Followed w.view)
    (es : List Event) :
    (∀ first, first <+: es → Followed (Run.after (step types) w first).view) ↔
      Run.Meets (step types) (Safe types) w es := by
  have exact : ∀ w e, Followed w.view → (Followed (step types w e).view ↔ Safe types w e) :=
    fun _ e followed => followed_step_iff followed e
  exact Run.Meets.throughout_iff exact start

end

def sampleTypes (provider : Text) : Option ProviderType :=
  if provider = "wg".toList then some .wireguard else if provider = "ov".toList then some .openvpn else none

def sampleKey : Text := Base64.encodeStd (List.replicate 32 1)

def otherKey : Text := Base64.encodeStd (List.replicate 32 2)

def restricted : List Event :=
  [.create "wg".toList sampleKey ["10.8.0.2/32".toList],
    .put "wg".toList (encodePeerID sampleKey) ["192.168.1.0/24".toList] none]

theorem restrictions_follow_iff_sample : Followed (Run.after (step sampleTypes) {} restricted).view := by
  have start : Followed (Deployment.view {}) := ⟨nofun, fun _ _ => rfl⟩
  have meets : Run.Meets (step sampleTypes) (Safe sampleTypes) {} restricted := by
    refine ⟨fun q t _ => .inr ⟨fun _ _ => .refl _, nofun⟩, ?_, trivial⟩
    intro addr norm target
    have made : putTarget sampleTypes (step sampleTypes {} restricted[0]) "wg".toList (encodePeerID sampleKey)
        ["192.168.1.0/24".toList] none = some ("10.8.0.2/32".toList, ["192.168.1.0/24".toList]) := by decide +kernel
    cases made.symm.trans target
    have place : (step sampleTypes {} restricted[0]).view.place ("wg".toList, sampleKey) =
        some "10.8.0.2/32".toList := by decide +kernel
    refine ⟨.inl ⟨_, place⟩, fun q b there => .inl ?_⟩
    have own : q = ("wg".toList, sampleKey) := by
      by_contra other
      have absent : (step sampleTypes {} restricted[0]).peers.get q = none := KeyTable.get_upsert_of_ne _ _ other
      have none : (step sampleTypes {} restricted[0]).view.place q = none := congrArg (·.bind Tunnel.address) absent
      cases none.symm.trans there
    subst own
    cases place.symm.trans there
    exact iff_of_true rfl (by decide +kernel)
  exact (restrictions_follow_iff sampleTypes start restricted).mpr meets restricted List.prefix_rfl

theorem not_followed_of_held {v : View PeerRef Text Text} {q : PeerRef} {a d : Text}
    (differ : v.place q = some a ∧ ¬ (d ∈ v.inForce a ↔ d ∈ v.wanted q)) : ¬ Followed v :=
  fun followed => differ.2 (followed.held q a differ.1 d)

/-- A restricted peer is deleted, and the next peer with its address inherits the
restriction; or it gets another address or another key; or a client without a
fixed address comes back from the pool. -/
theorem restrictions_stay_behind :
    ¬ Followed (Run.after (step sampleTypes) {} (restricted ++ [.delete "wg".toList (encodePeerID sampleKey),
        .create "wg".toList otherKey ["10.8.0.2/32".toList]])).view ∧
      ¬ Followed (Run.after (step sampleTypes) {} (restricted ++
        [.update "wg".toList (encodePeerID sampleKey) ["10.8.0.3/32".toList]])).view ∧
      ¬ Followed (Run.after (step sampleTypes) {} (restricted ++
        [.rotate "wg".toList (encodePeerID sampleKey) otherKey])).view ∧
      ¬ Followed (Run.after (step sampleTypes) {} [.create "ov".toList "anna".toList [],
        .reconnect "ov".toList "anna".toList "10.9.0.2".toList,
        .put "ov".toList (encodePeerID "anna".toList) ["192.168.1.0/24".toList] none,
        .reconnect "ov".toList "anna".toList "10.9.0.3".toList]).view := by
  refine ⟨?_, ?_, ?_, ?_⟩
  · exact not_followed_of_held (q := ("wg".toList, otherKey)) (a := "10.8.0.2/32".toList)
      (d := "192.168.1.0/24".toList) (by decide +kernel)
  · exact not_followed_of_held (q := ("wg".toList, sampleKey)) (a := "10.8.0.3/32".toList)
      (d := "192.168.1.0/24".toList) (by decide +kernel)
  · exact not_followed_of_held (q := ("wg".toList, otherKey)) (a := "10.8.0.2/32".toList)
      (d := "192.168.1.0/24".toList) (by decide +kernel)
  · exact not_followed_of_held (q := ("ov".toList, "anna".toList)) (a := "10.9.0.3/32".toList)
      (d := "192.168.1.0/24".toList) (by decide +kernel)

end Protean.PeerForward
