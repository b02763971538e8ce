import Protean.PeerID
import Protean.Store.PeerTables

namespace Protean.Access

inductive ProviderType
  | wireguard
  | amneziawg
  | openvpn
  | ikev2
  | xray
  deriving DecidableEq, Repr

/-- The providers that make the client's config themselves. -/
def ProviderType.certBased : ProviderType → Bool
  | .openvpn | .ikev2 => true
  | _ => false

def ProviderType.autoProvisionable : ProviderType → Bool
  | .wireguard | .amneziawg => true
  | _ => false

inductive RequestStatus
  | pending
  | approved
  | granted
  | denied
  deriving DecidableEq, Repr

/-- A peer in a table: its provider and the key of its row. -/
abbrev PeerRef := Text × Text

/-- The tables of all providers, and the access requests, of which a user has
at most one for a provider. -/
structure Records where
  tables : KeyTable Text Store.PeerTables := KeyTable.empty
  requests : KeyTable (Int × Text) RequestStatus := KeyTable.empty

def Records.peers (r : Records) (provider : Text) : Store.PeerTables := (r.tables.get provider).getD {}

def Records.modify (r : Records) (provider : Text) (f : Store.PeerTables → Store.PeerTables) : Records :=
  { r with tables := r.tables.upsert provider (f (r.peers provider)) }

def Records.setPeerOwner (r : Records) (provider peerKey : Text) (user : Int) : Records :=
  r.modify provider fun t => { t with owner := t.owner.upsert peerKey user }

def Records.clearPeerOwner (r : Records) (provider peerKey : Text) : Records :=
  r.modify provider fun t => { t with owner := t.owner.delete peerKey }

def Records.listOwnedPeerKeys (r : Records) (user : Int) : List PeerRef :=
  r.tables.rows.flatMap fun row => (row.2.owner.rows.filter fun o => o.2 = user).map fun o => (row.1, o.1)

/-- One `ClearPeerOwner` after the other. Those that fail change nothing. -/
def Records.clearPeerOwners (r : Records) (works : PeerRef → Bool) (rows : List PeerRef) : Records :=
  rows.foldl (fun r o => if works o then r.clearPeerOwner o.1 o.2 else r) r

section
variable (r : Records)

theorem Records.peers_modify (provider other : Text) (f : Store.PeerTables → Store.PeerTables) :
    (r.modify provider f).peers other = if other = provider then f (r.peers provider) else r.peers other := by
  rw [peers, modify, KeyTable.get_upsert]
  split <;> rfl

theorem Records.mem_listOwnedPeerKeys {user : Int} {o : PeerRef} :
    o ∈ r.listOwnedPeerKeys user ↔ (r.peers o.1).owner.get o.2 = some user := by
  have rows : ∀ t : Store.PeerTables, t.owner.get o.2 = some user ↔ (o.2, user) ∈ t.owner.rows :=
    fun t => KeyTable.get_eq_some_iff
  rw [listOwnedPeerKeys, List.mem_flatMap]
  constructor
  · rintro ⟨⟨provider, t⟩, row, member⟩
    obtain ⟨⟨id, owner⟩, listed, rfl⟩ := List.mem_map.mp member
    obtain ⟨inside, own⟩ := List.mem_filter.mp listed
    obtain rfl := of_decide_eq_true own
    have found : r.tables.get provider = some t := KeyTable.get_eq_some_iff.mpr row
    rw [rows, peers, found]
    exact inside
  · intro owned
    rw [rows, peers] at owned
    cases found : r.tables.get o.1 with
    | none =>
      rw [found] at owned
      cases owned
    | some t =>
      rw [found] at owned
      exact ⟨(o.1, t), KeyTable.get_eq_some_iff.mp found,
        List.mem_map.mpr ⟨(o.2, user), List.mem_filter.mpr ⟨owned, decide_eq_true rfl⟩, rfl⟩⟩

theorem Records.requests_clearPeerOwners (works : PeerRef → Bool) (rows : List PeerRef) :
    (r.clearPeerOwners works rows).requests = r.requests := by
  unfold clearPeerOwners
  induction rows generalizing r with
  | nil => rfl
  | cons o rows ih =>
    rw [List.foldl_cons, ih]
    split <;> rfl

/-- Only owners are cleared, those of the rows. -/
theorem Records.peers_clearPeerOwners (works : PeerRef → Bool) (rows : List PeerRef) (provider : Text) :
    ∃ owner, (r.clearPeerOwners works rows).peers provider = { r.peers provider with owner := owner } ∧
      ∀ id, owner.get id =
        if (provider, id) ∈ rows ∧ works (provider, id) = true then none else (r.peers provider).owner.get id := by
  unfold clearPeerOwners
  induction rows generalizing r with
  | nil => exact ⟨(r.peers provider).owner, rfl, fun id => by simp⟩
  | cons o rows ih =>
    obtain ⟨owner, tables, rest⟩ := ih (if works o then r.clearPeerOwner o.1 o.2 else r)
    have first : ∃ owner', (if works o then r.clearPeerOwner o.1 o.2 else r).peers provider =
          { r.peers provider with owner := owner' } ∧
        ∀ id, owner'.get id = if (provider, id) = o ∧ works o = true then none else (r.peers provider).owner.get id := by
      cases clears : works o with
      | false => exact ⟨(r.peers provider).owner, rfl, fun id => by simp⟩
      | true =>
        rw [if_pos rfl, clearPeerOwner, peers_modify]
        split
        · rename_i same
          refine ⟨(r.peers o.1).owner.delete o.2, by rw [same], fun id => ?_⟩
          rw [KeyTable.get_delete, same]
          exact if_congr (by simp [Prod.ext_iff]) rfl rfl
        · rename_i other
          exact ⟨(r.peers provider).owner, rfl, fun id => (if_neg fun own => other (congrArg Prod.fst own.1)).symm⟩
    obtain ⟨owner', tables', gets⟩ := first
    refine ⟨owner, by rw [List.foldl_cons, tables, tables'], fun id => ?_⟩
    rw [rest, tables', gets]
    by_cases own : (provider, id) = o
    · subst own
      by_cases clears : works (provider, id) = true <;> simp [clears]
    · simp [own]

end

end Protean.Access
