import Protean.Access.Records

namespace Protean.Access

/-- How the steps of taking a user's peers away go. A key is taken away by
`RemovePeer` of its provider. -/
structure RevokeEnv where
  reg : Text → Option ProviderType
  removes : PeerRef → Bool := fun _ => true
  listOwned : Bool := true
  clearOwner : PeerRef → Bool := fun _ => true
  listRequests : Bool := true
  setStatus : Text → Bool := fun _ => true

/-- The peer of an owned row, if `RemovePeer` is called for it and works. -/
def removedPeer (env : RevokeEnv) (o : PeerRef) : Option PeerRef := do
  let _ ← env.reg o.1
  let pubkey ← decodePeerID o.2
  if env.removes (o.1, pubkey) then some (o.1, pubkey) else none

/-- Gives the peers that are removed as well. -/
def removeUserPeers (env : RevokeEnv) (user : Int) (r : Records) : Records × List PeerRef :=
  if env.listOwned then
    let owned := r.listOwnedPeerKeys user
    (r.clearPeerOwners env.clearOwner owned, owned.filterMap (removedPeer env))
  else (r, [])

def denyUserRequests (env : RevokeEnv) (user : Int) (r : Records) : Records :=
  if env.listRequests then
    { r with requests := r.requests.rows.foldl (fun t row =>
        if row.1.1 = user ∧ row.2 ≠ .denied ∧ env.setStatus row.1.2 then t.upsert row.1 .denied else t) r.requests }
  else r

def revokeUserProviderAccess (env : RevokeEnv) (user : Int) (provider : Text) (r : Records) : Records × List PeerRef :=
  let owned := if env.listOwned then (r.listOwnedPeerKeys user).filter fun o => o.1 = provider else []
  let r := r.clearPeerOwners env.clearOwner owned
  let requests := match r.requests.get (user, provider) with
    | some status => if env.listRequests ∧ status ≠ .denied ∧ env.setStatus provider then
        r.requests.upsert (user, provider) .denied else r.requests
    | none => r.requests
  ({ r with requests := requests }, owned.filterMap (removedPeer env))

/-- The rows that refer to the account go with it. -/
def deleteUser (user : Int) (r : Records) : Records :=
  { r.clearPeerOwners (fun _ => true) (r.listOwnedPeerKeys user) with
    requests := r.requests.rows.foldl (fun t row => if row.1.1 = user then t.delete row.1 else t) r.requests }

structure RemovalEnv extends RevokeEnv where
  /-- The row of a peer that is disabled softly, if every step of it works. -/
  soft : PeerRef → Option Store.DisabledPeer := fun _ => none
  /-- The account may be deleted or disabled. -/
  account : Bool := true

/-- Certificate clients have no soft disable. -/
def disablePeer (env : RemovalEnv) (o : PeerRef) (r : Records) : Option (Records × List PeerRef) :=
  match env.reg o.1 with
  | none => none
  | some type =>
    if type.certBased then if env.removes o then some (r, [o]) else none
    else (env.soft o).map fun row => (r.modify o.1 fun t => { t with disabled := t.disabled.upsert o.2 row }, [])

/-- The rows that `apiDeletePeer` deletes. -/
def deletePeerRows (pubkey urlID : Text) (t : Store.PeerTables) : Store.PeerTables :=
  { t with
    secrets := t.secrets.delete pubkey
    expiry := t.expiry.delete pubkey
    category := t.category.delete pubkey
    muted := t.muted.delete pubkey
    forwardRules := t.forwardRules.delete urlID }

def apiDeletePeer (env : RemovalEnv) (provider urlID : Text) (r : Records) : Option (Records × List PeerRef) := do
  let pubkey ← decodePeerID urlID
  let _ ← env.reg provider
  if env.removes (provider, pubkey) then some (r.modify provider (deletePeerRows pubkey urlID), [(provider, pubkey)])
  else none

def Records.listDuePeers (r : Records) (now : Int) : List PeerRef :=
  r.tables.rows.flatMap fun row => (row.2.expiry.rows.filter fun e => e.2 ≤ now).map fun e => (row.1, e.1)

def sweepPeer (env : RemovalEnv) (s : Records × List PeerRef) (o : PeerRef) : Records × List PeerRef :=
  match disablePeer env o s.1 with
  | none => s
  | some (r, removed) => (r.modify o.1 fun t => { t with expiry := t.expiry.delete o.2 }, s.2 ++ removed)

def sweepExpired (env : RemovalEnv) (now : Int) (r : Records) : Records × List PeerRef :=
  (r.listDuePeers now).foldl (sweepPeer env) (r, [])

/-- The ways in which peers are removed. -/
inductive Removal
  | deletePeer (provider urlID : Text)
  | disablePeer (provider pubkey : Text)
  | sweepExpired (now : Int)
  | deleteUser (user : Int)
  | disableUser (user : Int)
  | revokeAccess (user : Int) (provider : Text)
  deriving DecidableEq, Repr

/-- Gives the peers that are removed as well. The calls of the store work. -/
def Removal.run (env : RemovalEnv) (r : Records) : Removal → Option (Records × List PeerRef)
  | .deletePeer provider urlID => apiDeletePeer env provider urlID r
  | .disablePeer provider pubkey => Access.disablePeer env (provider, pubkey) r
  | .sweepExpired now => some (Access.sweepExpired env now r)
  | .deleteUser user =>
    if env.account then
      let (r, removed) := removeUserPeers { reg := env.reg, removes := env.removes } user r
      some (Access.deleteUser user r, removed)
    else none
  | .disableUser user =>
    if env.account then
      let (r, removed) := removeUserPeers { reg := env.reg, removes := env.removes } user r
      some (denyUserRequests { reg := env.reg } user r, removed)
    else none
  | .revokeAccess user provider =>
    some (revokeUserProviderAccess { reg := env.reg, removes := env.removes } user provider r)

/-- No row under an id of the peer. -/
def NoRows {ν : Type} (key : Text) (t : KeyTable Text ν) : Prop := ∀ id, decodePeerID id = some key → t.get id = none

/-- No table has a row for the peer. -/
structure Unclaimed (key : Text) (t : Store.PeerTables) : Prop where
  secret : t.secrets.get key = none
  expiry : t.expiry.get key = none
  category : t.category.get key = none
  muted : t.muted.get key = none
  forwardRules : NoRows key t.forwardRules
  owner : NoRows key t.owner
  node : NoRows key t.node

/-- What is recorded about a peer when it is created. -/
structure Creation where
  secret : Option Text := none
  expiresAt : Option Int := none
  category : Option Text := none

def Creation.record (c : Creation) (key : Text) (t : Store.PeerTables) : Store.PeerTables :=
  { t with
    secrets := c.secret.elim t.secrets (t.secrets.upsert key)
    expiry := c.expiresAt.elim t.expiry (t.expiry.upsert key)
    category := c.category.elim t.category (t.category.upsert key) }

/-- The peer has what it was created with and nothing else. -/
structure StartsAfresh (c : Creation) (key : Text) (t : Store.PeerTables) : Prop where
  secret : t.secrets.get key = c.secret
  expiry : t.expiry.get key = c.expiresAt
  category : t.category.get key = c.category
  muted : t.muted.get key = none
  forwardRules : NoRows key t.forwardRules
  owner : NoRows key t.owner
  node : NoRows key t.node

/-- Nothing is left of the peer, for itself or for one that gets its key later. -/
structure LeavesNoClaim (key : Text) (t : Store.PeerTables) : Prop where
  rows : Unclaimed key t
  reborn : ∀ c : Creation, StartsAfresh c key (c.record key t)

/-- What a removal does not clear must not be there before. -/
def Removal.Clears (key : Text) (t : Store.PeerTables) : Removal → Prop
  | .deletePeer _ urlID => NoRows key t.owner ∧ NoRows key t.node ∧
      ∀ id, decodePeerID id = some key → id ≠ urlID → t.forwardRules.get id = none
  | .disablePeer _ _ => Unclaimed key t
  | .sweepExpired _ => Unclaimed key { t with expiry := KeyTable.empty }
  | .deleteUser user | .disableUser user | .revokeAccess user _ =>
    Unclaimed key { t with owner := KeyTable.empty } ∧
      ∀ id owner, decodePeerID id = some key → t.owner.get id = some owner → owner = user

section
variable {key : Text} {t t' : Store.PeerTables}

theorem Unclaimed.leavesNoClaim (unclaimed : Unclaimed key t) : LeavesNoClaim key t := by
  have row : ∀ {ν : Type} (table : KeyTable Text ν) (value : Option ν), table.get key = none →
      (value.elim table (table.upsert key)).get key = value := by
    intro ν table value none'
    cases value with
    | none => exact none'
    | some v => exact KeyTable.get_upsert_self _ _ _
  exact ⟨unclaimed, fun c => ⟨row _ _ unclaimed.secret, row _ _ unclaimed.expiry, row _ _ unclaimed.category,
    unclaimed.muted, unclaimed.forwardRules, unclaimed.owner, unclaimed.node⟩⟩

theorem leavesNoClaim_iff : LeavesNoClaim key t ↔ Unclaimed key t := ⟨LeavesNoClaim.rows, Unclaimed.leavesNoClaim⟩

theorem unclaimed_deletePeerRows_iff (urlID : Text) :
    Unclaimed key (deletePeerRows key urlID t) ↔
      NoRows key t.owner ∧ NoRows key t.node ∧
        ∀ id, decodePeerID id = some key → id ≠ urlID → t.forwardRules.get id = none := by
  constructor
  · intro unclaimed
    refine ⟨unclaimed.owner, unclaimed.node, fun id decoded other => ?_⟩
    have rules := unclaimed.forwardRules id decoded
    rwa [deletePeerRows, KeyTable.get_delete_of_ne _ other] at rules
  · rintro ⟨owner, node, rules⟩
    refine ⟨KeyTable.get_delete_self _ _, KeyTable.get_delete_self _ _, KeyTable.get_delete_self _ _,
      KeyTable.get_delete_self _ _, fun id decoded => ?_, owner, node⟩
    rw [deletePeerRows, KeyTable.get_delete]
    split
    · rfl
    · rename_i other
      exact rules id decoded other

/-- With the rows of one owner cleared. -/
theorem unclaimed_owner_iff {user : Int} {owner : KeyTable Text Int}
    (gets : ∀ id, owner.get id = if t.owner.get id = some user then none else t.owner.get id) :
    Unclaimed key { t with owner := owner } ↔
      Unclaimed key { t with owner := KeyTable.empty } ∧
        ∀ id other, decodePeerID id = some key → t.owner.get id = some other → other = user := by
  constructor
  · intro unclaimed
    refine ⟨⟨unclaimed.secret, unclaimed.expiry, unclaimed.category, unclaimed.muted, unclaimed.forwardRules,
      fun _ _ => rfl, unclaimed.node⟩, fun id other decoded row => ?_⟩
    have none' := unclaimed.owner id decoded
    dsimp only at none'
    rw [gets, row] at none'
    by_contra different
    rw [if_neg fun same => different (Option.some.inj same)] at none'
    cases none'
  · rintro ⟨rest, own⟩
    refine ⟨rest.secret, rest.expiry, rest.category, rest.muted, rest.forwardRules, fun id decoded => ?_, rest.node⟩
    dsimp only
    rw [gets]
    split
    · rfl
    · rename_i different
      cases row : t.owner.get id with
      | none => rfl
      | some other => exact absurd (row.trans (congrArg some (own id other decoded row))) different

/-- The tables of two states agree in all but expiry and disabled peers. -/
structure SameClaims (t t' : Store.PeerTables) : Prop where
  secrets : t'.secrets = t.secrets
  category : t'.category = t.category
  muted : t'.muted = t.muted
  forwardRules : t'.forwardRules = t.forwardRules
  owner : t'.owner = t.owner
  node : t'.node = t.node

theorem SameClaims.refl (t : Store.PeerTables) : SameClaims t t := ⟨rfl, rfl, rfl, rfl, rfl, rfl⟩

theorem SameClaims.trans {t'' : Store.PeerTables} (first : SameClaims t t') (second : SameClaims t' t'') :
    SameClaims t t'' :=
  ⟨second.secrets.trans first.secrets, second.category.trans first.category, second.muted.trans first.muted,
    second.forwardRules.trans first.forwardRules, second.owner.trans first.owner, second.node.trans first.node⟩

theorem SameClaims.unclaimed_iff (same : SameClaims t t') (gone : t'.expiry.get key = none) :
    Unclaimed key t' ↔ Unclaimed key { t with expiry := KeyTable.empty } := by
  constructor
  · intro unclaimed
    exact ⟨same.secrets ▸ unclaimed.secret, rfl, same.category ▸ unclaimed.category, same.muted ▸ unclaimed.muted,
      same.forwardRules ▸ unclaimed.forwardRules, same.owner ▸ unclaimed.owner, same.node ▸ unclaimed.node⟩
  · intro rest
    exact ⟨same.secrets ▸ rest.secret, gone, same.category ▸ rest.category, same.muted ▸ rest.muted,
      same.forwardRules ▸ rest.forwardRules, same.owner ▸ rest.owner, same.node ▸ rest.node⟩

end

section
variable {env : RemovalEnv} {r : Records} {provider key : Text}

theorem disablePeer_done {o : PeerRef} {r' : Records} {removed : List PeerRef}
    (done : disablePeer env o r = some (r', removed)) (other : Text) :
    SameClaims (r.peers other) (r'.peers other) ∧ (r'.peers other).expiry = (r.peers other).expiry ∧
      ∀ peer ∈ removed, peer = o ∧ r' = r := by
  unfold disablePeer at done
  split at done
  · cases done
  split at done
  · split at done
    · cases done
      exact ⟨.refl _, rfl, fun peer member => ⟨List.mem_singleton.mp member, rfl⟩⟩
    · cases done
  · obtain ⟨row, _, result⟩ := Option.map_eq_some_iff.mp done
    cases result
    rw [Records.peers_modify]
    split
    · rename_i same
      rw [same]
      exact ⟨⟨rfl, rfl, rfl, rfl, rfl, rfl⟩, rfl, nofun⟩
    · exact ⟨.refl _, rfl, nofun⟩

/-- One turn of a sweep: a peer that it removes has no expiry any more. -/
theorem sweepPeer_spec (env : RemovalEnv) (s : Records × List PeerRef) (o : PeerRef) (provider key : Text) :
    SameClaims (s.1.peers provider) ((sweepPeer env s o).1.peers provider) ∧
      ((s.1.peers provider).expiry.get key = none → ((sweepPeer env s o).1.peers provider).expiry.get key = none) ∧
      ((provider, key) ∈ (sweepPeer env s o).2 →
        (provider, key) ∈ s.2 ∨ ((sweepPeer env s o).1.peers provider).expiry.get key = none) := by
  unfold sweepPeer
  cases result : disablePeer env o s.1 with
  | none => exact ⟨.refl _, id, .inl⟩
  | some disabled =>
    obtain ⟨r', removed⟩ := disabled
    obtain ⟨same, expiry, own⟩ := disablePeer_done result provider
    dsimp only
    rw [Records.peers_modify]
    split
    · rename_i here
      rw [here] at same expiry ⊢
      refine ⟨same.trans ⟨rfl, rfl, rfl, rfl, rfl, rfl⟩, fun none' => ?_, fun member => ?_⟩
      · dsimp only
        rw [KeyTable.get_delete, expiry, none', ite_self]
      · rcases List.mem_append.mp member with old | new
        · exact .inl old
        · have key' : key = o.2 := congrArg Prod.snd (own _ new).1
          right
          dsimp only
          rw [KeyTable.get_delete, if_pos key']
    · rename_i elsewhere
      refine ⟨same, fun none' => by rw [expiry, none'], fun member => ?_⟩
      rcases List.mem_append.mp member with old | new
      · exact .inl old
      · exact absurd (congrArg Prod.fst (own _ new).1) elsewhere

theorem sweep_spec (env : RemovalEnv) (due : List PeerRef) (s : Records × List PeerRef) (provider key : Text) :
    SameClaims (s.1.peers provider) ((due.foldl (sweepPeer env) s).1.peers provider) ∧
      ((s.1.peers provider).expiry.get key = none →
        ((due.foldl (sweepPeer env) s).1.peers provider).expiry.get key = none) ∧
      ((provider, key) ∈ (due.foldl (sweepPeer env) s).2 →
        (provider, key) ∈ s.2 ∨ ((due.foldl (sweepPeer env) s).1.peers provider).expiry.get key = none) := by
  induction due generalizing s with
  | nil => exact ⟨.refl _, id, .inl⟩
  | cons o due ih =>
    obtain ⟨same, keeps, first⟩ := sweepPeer_spec env s o provider key
    obtain ⟨same', keeps', rest⟩ := ih (sweepPeer env s o)
    refine ⟨same.trans same', fun none' => keeps' (keeps none'), fun member => ?_⟩
    rcases rest member with early | gone
    · exact (first early).imp_right keeps'
    · exact .inr gone

/-- The owner rows of a user, with those cleared that are listed. -/
theorem owner_clearPeerOwners (r : Records) (user : Int) {rows : List PeerRef}
    (listed : ∀ id, (provider, id) ∈ rows ↔ (r.peers provider).owner.get id = some user) :
    ∃ owner, (r.clearPeerOwners (fun _ => true) rows).peers provider = { r.peers provider with owner := owner } ∧
      ∀ id, owner.get id =
        if (r.peers provider).owner.get id = some user then none else (r.peers provider).owner.get id := by
  obtain ⟨owner, tables, gets⟩ := r.peers_clearPeerOwners (fun _ => true) rows provider
  refine ⟨owner, tables, fun id => (gets id).trans (if_congr ?_ rfl rfl)⟩
  rw [listed id, and_iff_left rfl]

theorem mem_filter_provider (r : Records) (user : Int) (provider id : Text) :
    (provider, id) ∈ (r.listOwnedPeerKeys user).filter (fun o => o.1 = provider) ↔
      (r.peers provider).owner.get id = some user := by
  rw [List.mem_filter, Records.mem_listOwnedPeerKeys, and_iff_left (decide_eq_true rfl)]

/-- Whoever owned a peer of the account owns none when its peers are removed,
and deleting the account itself adds nothing to that. -/
theorem owner_deleteUser (r : Records) (user : Int) (provider : Text) :
    ∃ owner, (deleteUser user (r.clearPeerOwners (fun _ => true) (r.listOwnedPeerKeys user))).peers provider =
        { r.peers provider with owner := owner } ∧
      ∀ id, owner.get id =
        if (r.peers provider).owner.get id = some user then none else (r.peers provider).owner.get id := by
  let first := r.clearPeerOwners (fun _ => true) (r.listOwnedPeerKeys user)
  obtain ⟨owner, tables, gets⟩ := owner_clearPeerOwners r user fun id => r.mem_listOwnedPeerKeys (o := (provider, id))
  obtain ⟨owner', tables', gets'⟩ := owner_clearPeerOwners first user fun id =>
    first.mem_listOwnedPeerKeys (o := (provider, id))
  refine ⟨owner', ?_, fun id => ?_⟩
  · refine (show (deleteUser user first).peers provider = _ from tables').trans ?_
    rw [tables]
  · rw [gets', tables, gets]
    split <;> simp_all

theorem removedPeer_provider {env : RevokeEnv} {o : PeerRef} (removes : removedPeer env o = some (provider, key)) :
    o.1 = provider := by
  obtain ⟨_, _, removes⟩ := Option.bind_eq_some_iff.mp removes
  obtain ⟨pubkey, _, removes⟩ := Option.bind_eq_some_iff.mp removes
  split at removes
  · exact congrArg Prod.fst (Option.some.inj removes)
  · cases removes

/-- A removal leaves nothing of a peer that it removes, exactly if there was
nothing but what it clears. -/
theorem removal_leaves_no_claim_iff {path : Removal} {r' : Records} {removed : List PeerRef}
    (done : path.run env r = some (r', removed)) (gone : (provider, key) ∈ removed) :
    LeavesNoClaim key (r'.peers provider) ↔ path.Clears key (r.peers provider) := by
  rw [leavesNoClaim_iff]
  cases path with
  | deletePeer provider' urlID =>
    obtain ⟨pubkey, decoded, done⟩ := Option.bind_eq_some_iff.mp done
    obtain ⟨_, _, done⟩ := Option.bind_eq_some_iff.mp done
    split at done
    · cases done
      obtain ⟨rfl, rfl⟩ := Prod.mk.inj (List.mem_singleton.mp gone)
      rw [Records.peers_modify, if_pos rfl]
      exact unclaimed_deletePeerRows_iff urlID
    · cases done
  | disablePeer provider' pubkey =>
    rw [((disablePeer_done done provider).2.2 _ gone).2]
    rfl
  | sweepExpired now =>
    have result : sweepExpired env now r = (r', removed) := Option.some.inj done
    obtain rfl : (sweepExpired env now r).1 = r' := congrArg Prod.fst result
    obtain rfl : (sweepExpired env now r).2 = removed := congrArg Prod.snd result
    obtain ⟨same, _, cleared⟩ := sweep_spec env (r.listDuePeers now) (r, []) provider key
    exact same.unclaimed_iff ((cleared gone).resolve_left (by simp))
  | deleteUser user =>
    rw [Removal.run] at done
    split at done
    · cases done
      obtain ⟨owner, tables, gets⟩ := owner_deleteUser r user provider
      exact (iff_of_eq (congrArg (Unclaimed key) tables)).trans (unclaimed_owner_iff gets)
    · cases done
  | disableUser user =>
    rw [Removal.run] at done
    split at done
    · cases done
      obtain ⟨owner, tables, gets⟩ := owner_clearPeerOwners r user fun id => r.mem_listOwnedPeerKeys (o := (provider, id))
      exact (iff_of_eq (congrArg (Unclaimed key) tables)).trans (unclaimed_owner_iff gets)
    · cases done
  | revokeAccess user provider' =>
    cases done
    obtain ⟨o, listed, removes⟩ := List.mem_filterMap.mp gone
    have here : provider' = provider :=
      (of_decide_eq_true (List.mem_filter.mp listed).2).symm.trans (removedPeer_provider removes)
    subst here
    obtain ⟨owner, tables, gets⟩ := owner_clearPeerOwners r user fun id => mem_filter_provider r user provider' id
    exact (iff_of_eq (congrArg (Unclaimed key) tables)).trans (unclaimed_owner_iff gets)

end

def ovpnEnv : RemovalEnv where
  reg := fun _ => some .openvpn

def ovpnRecords (t : Store.PeerTables) : Records where
  tables := KeyTable.empty.upsert "ovpn".toList t

/-- A peer that expires and may only reach one destination. -/
def restrictedTables : Store.PeerTables where
  expiry := KeyTable.empty.upsert "bob".toList 5
  forwardRules := KeyTable.empty.upsert (encodePeerID "bob".toList) ["10.0.0.0/8".toList]

theorem removal_leaves_no_claim_iff_sample :
    ∃ result, (Removal.deletePeer "ovpn".toList (encodePeerID "bob".toList)).run ovpnEnv (ovpnRecords restrictedTables) =
        some (result, [("ovpn".toList, "bob".toList)]) ∧ LeavesNoClaim "bob".toList (result.peers "ovpn".toList) := by
  have decoded : decodePeerID (encodePeerID "bob".toList) = some "bob".toList := by decide +kernel
  have done : (Removal.deletePeer "ovpn".toList (encodePeerID "bob".toList)).run ovpnEnv (ovpnRecords restrictedTables) =
      some ((ovpnRecords restrictedTables).modify "ovpn".toList (deletePeerRows "bob".toList (encodePeerID "bob".toList)),
        [("ovpn".toList, "bob".toList)]) := by
    rw [Removal.run, apiDeletePeer, decoded]
    rfl
  refine ⟨_, done, (removal_leaves_no_claim_iff done (List.mem_singleton_self _)).mpr ?_⟩
  have tables : (ovpnRecords restrictedTables).peers "ovpn".toList = restrictedTables := by
    rw [Records.peers, ovpnRecords, KeyTable.get_upsert_self]
    rfl
  rw [tables]
  exact ⟨fun _ _ => rfl, fun _ _ => rfl, fun id _ other => KeyTable.get_upsert_of_ne _ _ other⟩

/-- A peer with an owner, an expiry and a restriction. -/
def ownedTables : Store.PeerTables where
  expiry := KeyTable.empty.upsert "bob".toList 5
  owner := KeyTable.empty.upsert (encodePeerID "bob".toList) 7
  forwardRules := KeyTable.empty.upsert (encodePeerID "bob".toList) ["10.0.0.0/8".toList]

/-- A deleted peer keeps its owner. One that expires keeps owner and
restriction, and one whose owner is deleted keeps its expiry and restriction. -/
theorem removal_leaves_claim :
    (∃ r', (Removal.deletePeer "ovpn".toList (encodePeerID "bob".toList)).run ovpnEnv (ovpnRecords ownedTables) =
        some (r', [("ovpn".toList, "bob".toList)]) ∧
      (r'.peers "ovpn".toList).owner.get (encodePeerID "bob".toList) = some 7 ∧
      ¬ LeavesNoClaim "bob".toList (r'.peers "ovpn".toList)) ∧
    (∃ r', (Removal.sweepExpired 6).run ovpnEnv (ovpnRecords ownedTables) = some (r', [("ovpn".toList, "bob".toList)]) ∧
      (r'.peers "ovpn".toList).owner.get (encodePeerID "bob".toList) = some 7 ∧
      ¬ LeavesNoClaim "bob".toList (r'.peers "ovpn".toList)) ∧
    ∃ r', (Removal.deleteUser 7).run ovpnEnv (ovpnRecords ownedTables) = some (r', [("ovpn".toList, "bob".toList)]) ∧
      (r'.peers "ovpn".toList).expiry.get "bob".toList = some 5 ∧
      ¬ LeavesNoClaim "bob".toList (r'.peers "ovpn".toList) := by
  have decoded : decodePeerID (encodePeerID "bob".toList) = some "bob".toList := by decide +kernel
  have keepsOwner : ∀ path : Removal, (path.run ovpnEnv (ovpnRecords ownedTables)).map (fun s =>
        (s.2, (s.1.peers "ovpn".toList).owner.get (encodePeerID "bob".toList))) =
          some ([("ovpn".toList, "bob".toList)], some 7) →
      ∃ r', path.run ovpnEnv (ovpnRecords ownedTables) = some (r', [("ovpn".toList, "bob".toList)]) ∧
        (r'.peers "ovpn".toList).owner.get (encodePeerID "bob".toList) = some 7 ∧
        ¬ LeavesNoClaim "bob".toList (r'.peers "ovpn".toList) := by
    intro path result
    obtain ⟨⟨r', removed⟩, done, same⟩ := Option.map_eq_some_iff.mp result
    obtain ⟨rfl, row⟩ := Prod.mk.inj same
    refine ⟨r', done, row, fun leaves => ?_⟩
    cases (leaves.rows.owner _ decoded).symm.trans row
  refine ⟨keepsOwner _ (by decide +kernel), keepsOwner _ (by decide +kernel), ?_⟩
  have result : ((Removal.deleteUser 7).run ovpnEnv (ovpnRecords ownedTables)).map (fun s =>
      (s.2, (s.1.peers "ovpn".toList).expiry.get "bob".toList)) =
        some ([("ovpn".toList, "bob".toList)], some 5) := by decide +kernel
  obtain ⟨⟨r', removed⟩, done, same⟩ := Option.map_eq_some_iff.mp result
  obtain ⟨rfl, row⟩ := Prod.mk.inj same
  refine ⟨r', done, row, fun leaves => ?_⟩
  cases leaves.rows.expiry.symm.trans row

end Protean.Access
