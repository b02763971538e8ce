import Protean.Access.Removal
import Protean.Proc

namespace Protean.Access

def Records.owns (r : Records) (user : Int) (provider id : Text) : Prop := (r.peers provider).owner.get id = some user

def Records.withStatus (r : Records) (user : Int) (provider : Text) (status : RequestStatus) : Records :=
  { r with requests := r.requests.upsert (user, provider) status }

/-- The row must be there. -/
def setRequestStatus (works : Bool) (user : Int) (provider : Text) (status : RequestStatus) : Proc Records Unit := do
  Proc.guard works
  let _ ← Proc.read fun r => r.requests.get (user, provider)
  Proc.modify fun r => r.withStatus user provider status

/-- A request that is there is open again. -/
def upsertRequest (works : Bool) (user : Int) (provider : Text) : Proc Records Unit := do
  Proc.guard works
  Proc.modify fun r => r.withStatus user provider .pending

def setPeerOwner (works : Bool) (provider peerKey : Text) (user : Int) : Proc Records Unit := do
  Proc.guard works
  Proc.modify fun r => r.setPeerOwner provider peerKey user

/-- The user is known to own a peer: not if the rows cannot be read. -/
def Records.knownOwner (r : Records) (listOwned : Bool) (user : Int) (provider : Text) : Bool :=
  listOwned && (r.listOwnedPeerKeys user).any fun o => o.1 = provider

/-- How the steps of an approval go, and the key of the peer that
`autoProvisionPeer` makes, if it does. -/
structure ApproveEnv where
  reg : Text → Option ProviderType
  provisioned : Option Text := none
  setOwner : Bool := true
  download : Bool := true
  setGranted : Bool := true
  setApproved : Bool := true

/-- The last steps of both ways to grant a peer: it is assigned, checked, and
then the request is closed. -/
def assignAndGrant (setOwner download setGranted : Bool) (user : Int) (provider urlID : Text) : Proc Records Unit := do
  setPeerOwner setOwner provider urlID user
  Proc.guard download
  setRequestStatus setGranted user provider .granted

def autoProvisionAndGrant (env : ApproveEnv) (user : Int) (provider : Text) : Proc Records Unit := do
  let pubkey ← Proc.lift env.provisioned
  assignAndGrant env.setOwner env.download env.setGranted user provider (encodePeerID pubkey)

/-- What fails on the way leaves the request to be handled by hand. -/
def approveRequest (env : ApproveEnv) (user : Int) (provider : Text) : Proc Records Unit := do
  let type ← Proc.lift (env.reg provider)
  if type.autoProvisionable then
    match ← Proc.attempt (autoProvisionAndGrant env user provider) with
    | some _ => return
    | none =>
      let _ ← Proc.attempt (setRequestStatus env.setApproved user provider .approved)
  else setRequestStatus env.setApproved user provider .approved

/-- The request, by its user and provider. -/
def getRequest (works : Bool) (user : Int) (provider : Text) : Proc Records RequestStatus :=
  Proc.read fun r => if works then r.requests.get (user, provider) else none

structure GrantEnv extends ApproveEnv where
  account : Bool := true
  listOwned : Bool := true
  upsert : Bool := true

/-- The provider is there and takes requests. -/
def takesRequests (reg : Text → Option ProviderType) (provider : Text) : Bool :=
  (reg provider).any fun type => type ≠ .xray

def apiPortalRequestAccess (env : GrantEnv) (user : Int) (provider : Text) : Proc Records Unit := do
  Proc.guard (takesRequests env.reg provider)
  Proc.guard env.account
  let owned ← Proc.read fun r => some (r.knownOwner env.listOwned user provider)
  Proc.guard !owned
  upsertRequest env.upsert user provider

def apiAccessRequestApprove (env : ApproveEnv) (get : Bool) (user : Int) (provider : Text) : Proc Records Unit := do
  let _ ← getRequest get user provider
  approveRequest env user provider

def apiAccessRequestDeny (get set : Bool) (user : Int) (provider : Text) : Proc Records Unit := do
  let _ ← getRequest get user provider
  setRequestStatus set user provider .denied

/-- `apiUserAccessSet` with access switched on. -/
def grantAccess (env : GrantEnv) (user : Int) (provider : Text) : Proc Records Unit := do
  Proc.guard env.account
  Proc.guard (takesRequests env.reg provider)
  let owned ← Proc.read fun r => some (r.knownOwner env.listOwned user provider)
  if owned then return
  else do
    upsertRequest env.upsert user provider
    approveRequest env.toApproveEnv user provider

/-- The same with access switched off. -/
def revokeAccess (env : RevokeEnv) (account : Bool) (user : Int) (provider : Text) : Proc Records Unit := do
  Proc.guard account
  Proc.guard (takesRequests env.reg provider)
  Proc.modify fun r => (revokeUserProviderAccess env user provider r).1

structure LinkEnv where
  getRequest : Bool := true
  setOwner : Bool := true
  download : Bool := true
  setGranted : Bool := true

/-- A peer that was just created on a provider, for a request of a user. -/
def linkPeerToAccessRequest (env : LinkEnv) (user : Int) (provider providerName pubkey : Text) : Proc Records Unit := do
  Proc.guard (pubkey ≠ [])
  let status ← getRequest env.getRequest user provider
  Proc.guard (provider = providerName ∧ status ≠ .granted ∧ status ≠ .denied)
  assignAndGrant env.setOwner env.download env.setGranted user provider (encodePeerID pubkey)

inductive Op
  | request (env : GrantEnv) (user : Int) (provider : Text)
  | approve (env : ApproveEnv) (get : Bool) (user : Int) (provider : Text)
  | deny (get set : Bool) (user : Int) (provider : Text)
  | grant (env : GrantEnv) (user : Int) (provider : Text)
  | revoke (env : RevokeEnv) (account : Bool) (user : Int) (provider : Text)
  | link (env : LinkEnv) (user : Int) (provider providerName pubkey : Text)

def Op.run : Op → Proc Records Unit
  | .request env user provider => apiPortalRequestAccess env user provider
  | .approve env get user provider => apiAccessRequestApprove env get user provider
  | .deny get set user provider => apiAccessRequestDeny get set user provider
  | .grant env user provider => grantAccess env user provider
  | .revoke env account user provider => revokeAccess env account user provider
  | .link env user provider providerName pubkey => linkPeerToAccessRequest env user provider providerName pubkey

def handle (r : Records) (op : Op) : Records := (op.run.exec r).2

section
variable {r : Records} {user : Int} {provider : Text}

theorem owns_setPeerOwner (r : Records) (provider id : Text) (user u : Int) (p id' : Text) :
    (r.setPeerOwner provider id user).owns u p id' ↔
      if p = provider ∧ id' = id then user = u else r.owns u p id' := by
  unfold Records.owns Records.setPeerOwner
  rw [Records.peers_modify]
  by_cases here : p = provider
  · rw [if_pos here, here, KeyTable.get_upsert]
    by_cases same : id' = id
    · simp [same]
    · simp [same]
  · simp [here]

theorem exec_setRequestStatus (works : Bool) (status : RequestStatus) (r : Records) :
    (setRequestStatus works user provider status).exec r =
      if works = true ∧ (r.requests.get (user, provider)).isSome = true then (some (), r.withStatus user provider status)
      else (none, r) := by
  unfold setRequestStatus
  rw [Proc.exec_guard_bind, Proc.exec_bind, Proc.exec_read]
  cases works <;> cases r.requests.get (user, provider) <;> simp

theorem exec_setPeerOwner (works : Bool) (id : Text) (r : Records) :
    (setPeerOwner works provider id user).exec r =
      if works = true then (some (), r.setPeerOwner provider id user) else (none, r) := by
  unfold setPeerOwner
  rw [Proc.exec_guard_bind, Proc.exec_modify]

/-- A peer is assigned, and the request follows if the check passes. -/
theorem exec_assignAndGrant {setOwner download setGranted : Bool} {id : Text}
    (row : (r.requests.get (user, provider)).isSome = true) :
    (assignAndGrant setOwner download setGranted user provider id).exec r =
      if setOwner then
        if download = true ∧ setGranted = true then
          (some (), (r.setPeerOwner provider id user).withStatus user provider .granted)
        else (none, r.setPeerOwner provider id user)
      else (none, r) := by
  have row' : ((r.setPeerOwner provider id user).requests.get (user, provider)).isSome = true := row
  unfold assignAndGrant
  rw [Proc.exec_bind, exec_setPeerOwner]
  cases setOwner with
  | false => rfl
  | true =>
    simp only [if_true]
    rw [Proc.exec_guard_bind, exec_setRequestStatus]
    cases download <;> cases setGranted <;> simp [row']

theorem exec_autoProvisionAndGrant {env : ApproveEnv} (row : (r.requests.get (user, provider)).isSome = true) :
    (autoProvisionAndGrant env user provider).exec r =
      match if env.setOwner then env.provisioned.map encodePeerID else none with
      | none => (none, r)
      | some id =>
        if env.download = true ∧ env.setGranted = true then
          (some (), (r.setPeerOwner provider id user).withStatus user provider .granted)
        else (none, r.setPeerOwner provider id user) := by
  unfold autoProvisionAndGrant
  rw [Proc.exec_lift_bind]
  cases env.provisioned with
  | none => cases env.setOwner <;> rfl
  | some pubkey =>
    dsimp only
    rw [exec_assignAndGrant row]
    cases env.setOwner <;> rfl

theorem exec_getRequest_bind {β : Type} (works : Bool) (f : RequestStatus → Proc Records β) (r : Records) :
    (getRequest works user provider >>= f).exec r =
      match if works then r.requests.get (user, provider) else none with
      | some status => (f status).exec r
      | none => (none, r) := by
  rw [Proc.exec_bind, getRequest, Proc.exec_read]
  cases (if works then r.requests.get (user, provider) else none) <;> rfl

theorem owns_revoke (env : RevokeEnv) (r : Records) (user : Int) (provider : Text) (u : Int) (p id : Text) :
    (revokeUserProviderAccess env user provider r).1.owns u p id ↔
      r.owns u p id ∧ ¬ ((u, p) = (user, provider) ∧ env.listOwned = true ∧ env.clearOwner (provider, id) = true) := by
  let rows := if env.listOwned then (r.listOwnedPeerKeys user).filter fun o => o.1 = provider else []
  have listed : (p, id) ∈ rows ↔ env.listOwned = true ∧ p = provider ∧ r.owns user p id := by
    cases lists : env.listOwned with
    | false => simp [rows, lists]
    | true =>
      simp only [rows, lists, if_true, List.mem_filter, Records.mem_listOwnedPeerKeys, decide_eq_true_iff, true_and]
      exact and_comm
  obtain ⟨owner, tables, gets⟩ := r.peers_clearPeerOwners env.clearOwner rows p
  have after : (revokeUserProviderAccess env user provider r).1.owns u p id ↔ owner.get id = some u := by
    refine (show _ ↔ ((r.clearPeerOwners env.clearOwner rows).peers p).owner.get id = some u from Iff.rfl).trans ?_
    rw [tables]
  rw [after, gets]
  by_cases cleared : (p, id) ∈ rows ∧ env.clearOwner (p, id) = true
  · rw [if_pos cleared]
    refine iff_of_false (by simp) fun kept => ?_
    obtain ⟨lists, rfl, mine⟩ := listed.mp cleared.1
    have same : u = user := Option.some.inj (kept.1.symm.trans mine)
    exact kept.2 ⟨by rw [same], lists, cleared.2⟩
  · rw [if_neg cleared]
    constructor
    · intro own
      refine ⟨own, ?_⟩
      rintro ⟨key, lists, clears⟩
      obtain ⟨rfl, rfl⟩ := Prod.mk.inj key
      exact cleared ⟨listed.mpr ⟨lists, rfl, own⟩, clears⟩
    · exact And.left

/-- The request after a revoke. -/
theorem requests_revoke (env : RevokeEnv) (r : Records) (user : Int) (provider : Text) (k : Int × Text) :
    (revokeUserProviderAccess env user provider r).1.requests.get k =
      if k = (user, provider) ∧ (r.requests.get k).isSome = true ∧
          env.listRequests = true ∧ env.setStatus provider = true then
        some .denied
      else r.requests.get k := by
  have same : ∀ rows, (r.clearPeerOwners env.clearOwner rows).requests = r.requests :=
    fun rows => r.requests_clearPeerOwners env.clearOwner rows
  unfold revokeUserProviderAccess
  dsimp only
  rw [same]
  cases row : r.requests.get (user, provider) with
  | none =>
    dsimp only
    split
    · rename_i cond
      rw [cond.1, row] at cond
      cases cond.2.1
    · rfl
  | some status =>
    dsimp only
    by_cases sets : env.listRequests = true ∧ status ≠ .denied ∧ env.setStatus provider = true
    · rw [if_pos sets, KeyTable.get_upsert]
      by_cases key : k = (user, provider)
      · simp [key, row, sets.1, sets.2.2]
      · simp [key]
    · rw [if_neg sets]
      split
      · rename_i cond
        have denied : status = .denied := by
          by_contra other
          exact sets ⟨cond.2.2.1, other, cond.2.2.2⟩
        rw [cond.1, row, denied]
      · rfl

end

end Protean.Access
