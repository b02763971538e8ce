import Protean.Cert.Clients

namespace Protean.OpenVPN
open Cert (Crypto CA splitClientAllowedIPs listedIPs verifyClientCert)
open Inet (Addr parseCIDR)

structure Options where
  ccdDir : Text
  serverMask : Text
  deriving DecidableEq, Repr

/-- A row of the client table. The column of the sealed key is `NOT NULL`. -/
structure Client where
  certPEM : Text
  encKeyPEM : Text
  address : Text
  subnets : Text
  deriving DecidableEq, Repr

/-- A line of the status file. -/
structure ConnectedClient where
  commonName : Text
  realAddress : Text
  virtualAddress : Text
  bytesReceived : Nat
  bytesSent : Nat
  connectedSince : Option Int
  deriving DecidableEq, Repr

/-- The identifier is the name and the public key too. -/
structure Peer where
  id : Text
  allowedIPs : List Text
  online : Bool := false
  endpoint : Text := []
  rxBytes : Nat := 0
  txBytes : Nat := 0
  lastHandshake : Option Int := none
  deriving DecidableEq, Repr

/-- The rows of the clients, the files on the host by their path, and every
path at which a file of a client was written or removed. Certificates on the
revocation list are not part of this model. -/
structure State where
  clients : KeyTable Text Client
  files : Text → Option Text
  touched : List Text

/-- What the world does to one call: the authority that `getCA` gives, the
draws, and how each read, write and remote command goes. -/
structure Env where
  ca : Option CA := none
  draw : Nat := 0
  connected : Option (List ConnectedClient) := none
  getClient : Bool := true
  listClients : Bool := true
  saveClient : Outcome := .ok
  deleteClient : Outcome := .ok
  writeCCD : Outcome := .ok
  removeCCD : Outcome := .ok
  revoke : Bool := true

variable (opts : Options) (crypto : Crypto) (env : Env)

def ccdPath (cn : Text) : Text := opts.ccdDir ++ '/' :: cn

/-- Network and mask in dotted form, of version 4 only. -/
def cidrToNetMask (cidr : Text) : Option (Text × Text) := do
  let (_, n) ← parseCIDR cidr
  match n.addr with
  | .v4 a => some ((Addr.v4 a).toText, (Addr.v4 (Inet.mask n.ones (BitVec.allOnes 32))).toText)
  | .v6 _ => none

def ifconfigPush (address : Text) : Text :=
  match parseCIDR address with
  | some (ip, _) => "ifconfig-push ".toList ++ ip.toText ++ ' ' :: opts.serverMask ++ ['\n']
  | none => []

def iroute (subnet : Text) : Text :=
  match cidrToNetMask subnet with
  | some (network, mask) => "iroute ".toList ++ network ++ ' ' :: mask ++ ['\n']
  | none => []

/-- What is set for one client: its address, and the subnets behind it. -/
def ccdText (address : Text) (subnets : List Text) : Text :=
  let options := (if address ≠ [] then ifconfigPush opts address else []) ++ subnets.flatMap iroute
  if options = [] then "# no per-client options\n".toList else options

/-- A file that is written ends with one more newline than the text. -/
def writeCCD (cn address : Text) (subnets : List Text) : Proc State Unit :=
  Proc.write env.writeCCD fun s =>
    { s with
      files := Function.update s.files (ccdPath opts cn) (some (ccdText opts address subnets ++ ['\n']))
      touched := s.touched ++ [ccdPath opts cn] }

/-- `rm -f`, whatever comes of it. -/
def removeCCD (cn : Text) : Proc State Unit := do
  let _ ← Proc.attempt (Proc.write env.removeCCD fun s =>
    { s with
      files := Function.update s.files (ccdPath opts cn) none
      touched := s.touched ++ [ccdPath opts cn] })

def getClient (cn : Text) : Proc State Client :=
  Proc.read fun s => if env.getClient then s.clients.get cn else none

/-- An upsert. A missing key is written as `NULL`, which the column refuses. -/
def saveClient (cn certPEM : Text) (encKeyPEM : Option Text) (address : Text) (subnets : List Text) :
    Proc State Unit := do
  let key ← Proc.lift encKeyPEM
  Proc.write env.saveClient fun s =>
    { s with clients := s.clients.upsert cn ⟨certPEM, key, address, [','].intercalate subnets⟩ }

/-- The file of the client, then its row. -/
def storeClient (cn certPEM : Text) (encKeyPEM : Option Text) (address : Text) (subnets : List Text) :
    Proc State Unit := do
  writeCCD opts env cn address subnets
  saveClient env cn certPEM encKeyPEM address subnets

def addPeer (name : Text) (allowedIPs : List Text) : Proc State Peer := do
  let cn := Text.trimSpace name
  Proc.guard (cn ≠ [])
  let ca ← Proc.lift env.ca
  let (certPEM, keyPEM) ← Proc.lift (crypto.issue ca cn env.draw)
  let enc ← Proc.lift (crypto.sealText env.draw keyPEM)
  let (address, subnets) := splitClientAllowedIPs allowedIPs
  storeClient opts env cn certPEM (some enc) address subnets
  return { id := cn, allowedIPs }

def addPeerFromCSR (csrPEM name : Text) (allowedIPs : List Text) : Proc State Peer := do
  let cn := Text.trimSpace name
  Proc.guard (cn ≠ [])
  let ca ← Proc.lift env.ca
  let certPEM ← Proc.lift (crypto.signCSR ca csrPEM cn env.draw)
  let (address, subnets) := splitClientAllowedIPs allowedIPs
  storeClient opts env cn certPEM none address subnets
  return { id := cn, allowedIPs }

def importPeer (certPEM keyPEM : Text) : Proc State Peer := do
  let certPEM := Text.trimSpace certPEM
  let keyPEM := Text.trimSpace keyPEM
  let ca ← Proc.lift env.ca
  let cn ← Proc.lift (verifyClientCert crypto ca certPEM)
  if keyPEM = [] then storeClient opts env cn certPEM none [] []
  else
    Proc.guard (crypto.matchesPrivateKey certPEM keyPEM)
    let enc ← Proc.lift (crypto.sealText env.draw keyPEM)
    storeClient opts env cn certPEM (some enc) [] []
  return { id := cn, allowedIPs := [] }

def updatePeer (id : Text) (allowedIPs : List Text) : Proc State Unit := do
  let row ← getClient env id
  let (address, subnets) := splitClientAllowedIPs allowedIPs
  storeClient opts env id row.certPEM (some row.encKeyPEM) address subnets

def removePeer (id : Text) : Proc State Unit := do
  Proc.guard env.revoke
  removeCCD opts env id
  Proc.write env.deleteClient fun s => { s with clients := s.clients.delete id }

/-- A client that is connected shows where from. Without an address of its own
it shows the one it was given. -/
def shownPeer (online : List ConnectedClient) (cn : Text) (row : Client) : Peer :=
  let allowed := listedIPs row.address row.subnets
  match online.reverse.find? fun c => c.commonName = cn with
  | none => { id := cn, allowedIPs := allowed }
  | some c =>
    { id := cn
      allowedIPs := if allowed = [] ∧ c.virtualAddress ≠ [] then [c.virtualAddress] else allowed
      online := true
      endpoint := c.realAddress
      rxBytes := c.bytesReceived
      txBytes := c.bytesSent
      lastHandshake := c.connectedSince }

def listPeers : Proc State (List Peer) :=
  Proc.read fun s =>
    if env.listClients then some (s.clients.rows.map fun r => shownPeer (env.connected.getD []) r.1 r.2) else none

section
variable {opts crypto env} {cn certPEM address name : Text} {encKeyPEM : Option Text} {subnets allowedIPs : List Text}
open Proc (Triple)

theorem storeClient_row :
    Triple (fun _ => True) (storeClient opts env cn certPEM encKeyPEM address subnets)
      (fun _ s => ∃ key, s.clients.get cn = some ⟨certPEM, key, address, [','].intercalate subnets⟩) fun _ => True := by
  have file : Triple (fun _ => True) (writeCCD opts env cn address subnets) (fun _ _ => True) fun _ => True :=
    Triple.write (fun _ _ _ => trivial) (fun _ _ _ => trivial) fun _ _ _ => trivial
  refine file.bind fun _ => Triple.lift_bind (fun _ _ _ => trivial) fun key _ => ?_
  refine Triple.write (fun s _ _ => ⟨key, ?_⟩) (fun _ _ _ => trivial) fun _ _ _ => trivial
  rw [KeyTable.get_upsert, if_pos rfl]

/-- A client that was added has a row with its address and its subnets. -/
theorem addPeer_row :
    Triple (fun _ => True) (addPeer opts crypto env name allowedIPs)
      (fun new s => ∃ certPEM key, s.clients.get new.id = some ⟨certPEM, key, (splitClientAllowedIPs allowedIPs).1,
        [','].intercalate (splitClientAllowedIPs allowedIPs).2⟩) fun _ => True := by
  refine Triple.guard_bind (fun _ _ _ => trivial) fun _ => Triple.lift_bind (fun _ _ _ => trivial) fun ca _ =>
    Triple.lift_bind (fun _ _ _ => trivial) fun issued _ => Triple.lift_bind (fun _ _ _ => trivial) fun enc _ => ?_
  exact storeClient_row.bind fun _ => Triple.pure fun s ⟨key, row⟩ => ⟨issued.1, key, row⟩

end

end Protean.OpenVPN
