import Protean.Access.Records
import Protean.Inet
import Protean.Steps

namespace Protean.Network
open Access (PeerRef ProviderType RequestStatus)

inductive NodeKind
  | router
  | device
  | other
  deriving DecidableEq, Repr

inductive NodeRole
  | member
  | networkNode
  deriving DecidableEq, Repr

def NodeKind.parse (t : Text) : Option NodeKind :=
  if t = "router".toList then some router
  else if t = "device".toList then some device
  else if t = "other".toList then some other
  else none

def NodeRole.parse (t : Text) : Option NodeRole :=
  if t = "member".toList then some member else if t = "network_node".toList then some networkNode else none

structure Node where
  name : Text
  kind : NodeKind
  role : NodeRole
  description : Text
  deriving DecidableEq, Repr

inductive NATMode
  | passthrough
  | masquerade
  deriving DecidableEq, Repr

/-- A row of the subnet catalog. The network is a value of the database's own type. -/
structure Subnet where
  provider : Text
  cidr : Inet.IPNet
  natMode : NATMode := .passthrough
  deriving DecidableEq, Repr

/-- The equipment, the owners of both kinds, and the subnet catalog. The ids of nodes
and subnets are drawn from sequences. -/
structure Tables where
  nodes : KeyTable Int Node := KeyTable.empty
  nextNode : Int := 1
  nodePeer : KeyTable PeerRef Int := KeyTable.empty
  peerOwner : KeyTable PeerRef Int := KeyTable.empty
  subnets : KeyTable Int Subnet := KeyTable.empty
  nextSubnet : Int := 1

/-- The statements that write. A node is made for a peer or for no one in particular,
which is not stored. -/
inductive Write
  | createNode (id : Int) (node : Node) (peer : Option PeerRef)
  | updateNode (id : Int) (node : Node)
  | setNodePeer (ref : PeerRef) (id : Int)
  | clearNodePeer (ref : PeerRef)
  | setPeerOwner (ref : PeerRef) (user : Int)
  | clearPeerOwner (ref : PeerRef)
  | createSubnet (subnet : Subnet)
  | deleteSubnet (id : Int)
  | setSubnetNATMode (id : Int) (mode : NATMode)
  deriving DecidableEq, Repr

def Write.apply (w : Write) (s : Tables) : Tables :=
  match w with
  | createNode id node _ => { s with nodes := s.nodes.upsert id node, nextNode := id + 1 }
  | updateNode id node => { s with nodes := s.nodes.upsert id node }
  | setNodePeer ref id => { s with nodePeer := s.nodePeer.upsert ref id }
  | clearNodePeer ref => { s with nodePeer := s.nodePeer.delete ref }
  | setPeerOwner ref user => { s with peerOwner := s.peerOwner.upsert ref user }
  | clearPeerOwner ref => { s with peerOwner := s.peerOwner.delete ref }
  | createSubnet subnet => { s with subnets := s.subnets.upsert s.nextSubnet subnet, nextSubnet := s.nextSubnet + 1 }
  | deleteSubnet id => { s with subnets := s.subnets.delete id }
  | setSubnetNATMode id mode =>
    { s with subnets := ((s.subnets.get id).map fun sn => s.subnets.upsert id { sn with natMode := mode }).getD s.subnets }

abbrev Request (α : Type) := Steps Tables Write α

/-- How the database reads and writes a network. -/
structure CidrType where
  read : Text → Option Inet.IPNet
  text : Inet.IPNet → Text

/-- Networks as they are read in the panel. -/
def plainCidr : CidrType := ⟨fun t => (Inet.parseCIDR t).map (·.2), Inet.IPNet.toText⟩

section
variable (outcome : Outcome)

/-- The id is drawn. -/
def createNode (node : Node) (peer : Option PeerRef) : Request Int :=
  Steps.insert outcome (fun s => some (.createNode s.nextNode node peer)) (·.nextNode)

/-- The row must be there. -/
def updateNode (id : Int) (node : Node) : Request Unit :=
  Steps.insert outcome (fun s => (s.nodes.get id).map fun _ => .updateNode id node) fun _ => ()

/-- A text that is no network is turned down, and so is one that is there. -/
def createSubnet (db : CidrType) (provider cidr : Text) : Request Unit :=
  Steps.insert outcome (fun s => (db.read cidr).bind fun net =>
    if s.subnets.rows.all (·.2.cidr ≠ net) then some (.createSubnet { provider := provider, cidr := net }) else none) fun _ => ()

end

section
variable (works : Bool)

def getNode (id : Int) : Request Node := Steps.read fun s => if works then s.nodes.get id else none

def getNodePeerOwnerID (ref : PeerRef) : Request (Option Int) :=
  Steps.read fun s => if works then some (s.nodePeer.get ref) else none

def getPeerOwnerUserID (ref : PeerRef) : Request (Option Int) :=
  Steps.read fun s => if works then some (s.peerOwner.get ref) else none

def Tables.listNodeOwnedPeerKeys (s : Tables) (id : Int) : List PeerRef :=
  (s.nodePeer.rows.filter (·.2 = id)).map (·.1)

def listNodeOwnedPeerKeys (id : Int) : Request (List PeerRef) :=
  Steps.read fun s => if works then some (s.listNodeOwnedPeerKeys id) else none

def Tables.isNetworkNode (s : Tables) (id : Int) : Bool := (s.nodes.get id).any (·.role = .networkNode)

/-- Some other network node has a peer on the provider. -/
def Tables.hasNetworkNodePeer (s : Tables) (provider : Text) (excluded : Int) : Bool :=
  s.nodePeer.rows.any fun row => row.1.1 = provider && s.isNetworkNode row.2 && row.2 ≠ excluded

def hasNetworkNodePeer (provider : Text) (excluded : Int) : Request Bool :=
  Steps.read fun s => if works then some (s.hasNetworkNodePeer provider excluded) else none

def listAllSubnets (db : CidrType) : Request (List Text) :=
  Steps.read fun s => if works then some (s.subnets.rows.map fun row => db.text row.2.cidr) else none

end

end Protean.Network
