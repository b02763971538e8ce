import Protean.Network.Tables

namespace Protean.Network
open Access (PeerRef ProviderType RequestStatus)

structure NodeWriteReq where
  name : Text
  kind : Text
  role : Text
  description : Text
  deriving DecidableEq, Repr

/-- The row that a valid request asks for. -/
def validNodeWriteReq (req : NodeWriteReq) : Option Node := do
  if Text.trimSpace req.name = [] then none
  else
    let kind ← NodeKind.parse req.kind
    let role ← NodeRole.parse req.role
    some ⟨Text.trimSpace req.name, kind, role, Text.trimSpace req.description⟩

def apiNodesCreate (outcome : Outcome) (req : NodeWriteReq) : Request Unit := do
  let node ← Steps.lift (validNodeWriteReq req)
  let _ ← createNode outcome node none

def apiNodesUpdate (outcome : Outcome) (id : Int) (req : NodeWriteReq) : Request Unit := do
  let node ← Steps.lift (validNodeWriteReq req)
  updateNode outcome id node

/-- How the steps of giving a node access to a provider go, and the key of the peer
that `autoProvisionPeer` makes, if it does. -/
structure AccessEnv where
  reg : Text → Option ProviderType
  getNode : Bool := true
  listOwned : Bool := true
  hasNetworkNode : Bool := true
  provisioned : Option Text := none
  setNodePeer : Outcome := .ok
  clearNodePeer : PeerRef → Outcome := fun _ => .ok
  download : Bool := true

/-- Clears what can be cleared. -/
def clearNodePeers (outcome : PeerRef → Outcome) : List PeerRef → Request Unit
  | [] => return ()
  | ref :: rest => do
    let _ ← Steps.attempt (Steps.write (outcome ref) (.clearNodePeer ref))
    clearNodePeers outcome rest

def revokeNodeProviderAccess (env : AccessEnv) (id : Int) (provider : Text) : Request Unit := do
  match ← Steps.attempt (listNodeOwnedPeerKeys env.listOwned id) with
  | none => return ()
  | some owned => clearNodePeers env.clearNodePeer (owned.filter (·.1 = provider))

/-- A network node is kept off an instance on which another one has a peer. A node that is
known to have a peer there is left alone. -/
def apiNodeAccessSet (env : AccessEnv) (id : Int) (provider : Text) (enabled : Bool) : Request Unit := do
  let node ← getNode env.getNode id
  let type ← Steps.lift (env.reg provider)
  Steps.guard (type ≠ .xray)
  if !enabled then revokeNodeProviderAccess env id provider
  else
    let owned ← Steps.attempt (listNodeOwnedPeerKeys env.listOwned id)
    if (owned.getD []).any (·.1 = provider) then return ()
    else
      if node.role = .networkNode then
        let conflict ← hasNetworkNodePeer env.hasNetworkNode provider id
        Steps.guard !conflict
      Steps.guard type.autoProvisionable
      let pubkey ← Steps.lift env.provisioned
      Steps.write env.setNodePeer (.setNodePeer (provider, encodePeerID pubkey) id)
      Steps.guard env.download

structure OwnerEnv where
  instanceExists : Text → Bool := fun _ => true
  getNode : Bool := true
  createNode : Outcome := .ok
  /-- The account has the role of a portal user, if it is found. -/
  user : Int → Option Bool := fun _ => some true
  getOther : Bool := true
  set : Outcome := .ok
  clear : Outcome := .ok

/-- The owner of the other kind, as far as it can be read. -/
def otherOwner (lookup : Request (Option Int)) : Request (Option Int) := do
  let found ← Steps.attempt lookup
  return found.join

/-- The node that was picked, or a new one. -/
def pickNode (env : OwnerEnv) (nodeID : Int) (newName newKind : Text) : Request Int :=
  if nodeID = 0 then
    createNode env.createNode ⟨Text.trimSpace newName, (NodeKind.parse newKind).getD .device, .member, []⟩ none
  else do
    let _ ← getNode env.getNode nodeID
    return nodeID

def apiPeerSetNodeOwner (env : OwnerEnv) (ref : PeerRef) (nodeID : Int) (newName newKind : Text) : Request Unit := do
  Steps.guard (env.instanceExists ref.1)
  if nodeID = 0 ∧ Text.trimSpace newName = [] then Steps.write env.clear (.clearNodePeer ref)
  else
    let id ← pickNode env nodeID newName newKind
    let user ← otherOwner (getPeerOwnerUserID env.getOther ref)
    Steps.guard user.isNone
    Steps.write env.set (.setNodePeer ref id)

def apiPeerSetOwner (env : OwnerEnv) (ref : PeerRef) (user : Int) : Request Unit := do
  Steps.guard (env.instanceExists ref.1)
  if user = 0 then Steps.write env.clear (.clearPeerOwner ref)
  else
    let portal ← Steps.lift (env.user user)
    Steps.guard portal
    let node ← otherOwner (getNodePeerOwnerID env.getOther ref)
    Steps.guard node.isNone
    Steps.write env.set (.setPeerOwner ref user)

/-- How the steps of giving a peer to the user of an access request go. -/
structure GrantEnv where
  provisioned : Option Text := none
  request : Option (Int × Text × RequestStatus) := none
  setOwner : Outcome := .ok
  download : Bool := true
  setStatus : Bool := true

/-- The last steps of both ways to grant a peer. -/
def assignAndGrant (env : GrantEnv) (ref : PeerRef) (user : Int) : Request Unit := do
  Steps.write env.setOwner (.setPeerOwner ref user)
  Steps.guard env.download
  Steps.call env.setStatus

def autoProvisionAndGrant (env : GrantEnv) (provider : Text) (user : Int) : Request Unit := do
  let pubkey ← Steps.lift env.provisioned
  assignAndGrant env (provider, encodePeerID pubkey) user

/-- For a peer that was made by hand. -/
def linkPeerToAccessRequest (env : GrantEnv) (provider pubkey : Text) : Request Unit := do
  Steps.guard (pubkey ≠ [])
  let (user, wanted, status) ← Steps.lift env.request
  Steps.guard (wanted = provider ∧ status ≠ .granted ∧ status ≠ .denied)
  assignAndGrant env (provider, encodePeerID pubkey) user

inductive DetectionAction
  | createNode
  | skip
  | undismiss
  | unknown
  deriving DecidableEq, Repr

/-- A line of a preview, as the admin sends it back. -/
structure DetectionDecision where
  peerID : Text
  action : DetectionAction
  nodeName : Text := []
  nodeKind : Text := []
  subnetsToCreate : List Text := []
  meshWith : List Text := []
  deriving DecidableEq, Repr

structure DecisionEnv where
  dismissed : Bool := true
  getOwner : Bool := true
  createNode : Outcome := .ok
  setNodePeer : Outcome := .ok
  setCategory : Bool := true
  group : Bool := true
  createSubnet : Text → Outcome := fun _ => .ok
  mesh : Text → Bool := fun _ => true

def detectedDescription : Text := "Автоматически определено при импорте существующей конфигурации".toList

/-- A new node for a peer. -/
def makeNode (env : DecisionEnv) (ref : PeerRef) (d : DetectionDecision) : Request Int := do
  let id ← createNode env.createNode
    ⟨Text.trimSpace d.nodeName, (NodeKind.parse d.nodeKind).getD .router, .networkNode, detectedDescription⟩ (some ref)
  Steps.write env.setNodePeer (.setNodePeer ref id)
  Steps.call env.setCategory
  return id

/-- The node in front of a peer: the one that owns it, or else a new one, unless it would
have no name. -/
def nodeOf (env : DecisionEnv) (ref : PeerRef) (d : DetectionDecision) : Request (Option Int) := do
  match ← getNodePeerOwnerID env.getOwner ref with
  | some owner => return some owner
  | none =>
    if Text.trimSpace d.nodeName = [] then return none
    else some <$> makeNode env ref d

/-- Texts that are in the catalog, or were added to it before, are passed over. -/
def createSubnets (db : CidrType) (outcome : Text → Outcome) (provider : Text) : List Text → List Text → Request (List Text)
  | known, [] => return known
  | known, cidr :: rest =>
    let cidr := Text.trimSpace cidr
    if cidr = [] ∨ cidr ∈ known then createSubnets db outcome provider known rest
    else do
      createSubnet (outcome cidr) db provider cidr
      createSubnets db outcome provider (cidr :: known) rest

/-- A pair is known by its other side. -/
def enableMeshPairs (works : Text → Bool) : List Text → List Text → Request (List Text)
  | done, [] => return done
  | done, sib :: rest =>
    if sib ∈ done then enableMeshPairs works done rest
    else do
      Steps.call (works sib)
      enableMeshPairs works (sib :: done) rest

/-- What comes with a node: its networks and its mesh pairs, beyond those that are done with. -/
def applyNetworks (db : CidrType) (provider : Text) (d : DetectionDecision) (env : DecisionEnv) (done : List Text × List Text) :
    Request (List Text × List Text) := do
  if d.subnetsToCreate ≠ [] then Steps.call env.group
  let known ← createSubnets db env.createSubnet provider done.1 d.subnetsToCreate
  let meshed ← enableMeshPairs env.mesh done.2 d.meshWith
  return (known, meshed)

/-- One decision. -/
def applyDecision (db : CidrType) (provider : Text) (d : DetectionDecision) (env : DecisionEnv) (done : List Text × List Text) :
    Request (List Text × List Text) :=
  match decodePeerID d.peerID, d.action with
  | none, _ => return done
  | _, .unknown => return done
  | _, .skip => do Steps.call env.dismissed; return done
  | _, .undismiss => do Steps.call env.dismissed; return done
  | some _, .createNode => do
    match ← nodeOf env (provider, d.peerID) d with
    | none => return done
    | some _ => applyNetworks db provider d env done

def applyDecisions (db : CidrType) (provider : Text) :
    List (DetectionDecision × DecisionEnv) → List Text × List Text → Request Unit
  | [], _ => return ()
  | (d, env) :: rest, done => do
    let done ← applyDecision db provider d env done
    applyDecisions db provider rest done

def applyNetworkDetection (db : CidrType) (listSubnets : Bool) (provider : Text)
    (decisions : List (DetectionDecision × DecisionEnv)) : Request Unit := do
  let known ← listAllSubnets listSubnets db
  applyDecisions db provider decisions (known, [])

end Protean.Network
