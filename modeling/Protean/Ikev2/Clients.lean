import Protean.Ikev2.Swanctl

namespace Protean.Ikev2
open Cert (Crypto CA splitAllowedIPs listedIPs verifyClientCert)
open WgFamily (validPeerName)

structure Options where
  connName : Text
  serverID : Text
  pool : Text
  dns : List Text
  deriving DecidableEq, Repr

/-- A row of the client table. The column of the sealed key is `NOT NULL`. -/
structure Client where
  certPEM : Text
  encKeyPEM : Text
  p12pass : Text
  address : Text
  subnets : Text
  deriving DecidableEq, Repr

/-- A client that is connected: its identity, where from, and its address in
the tunnel. -/
structure ActiveSA where
  remoteID : Text
  remote : Text
  vip : Text
  deriving DecidableEq, Repr

/-- The identifier is the name and the public key too. -/
structure Peer where
  id : Text
  allowedIPs : List Text
  p12pass : Text := []
  online : Bool := false
  endpoint : Text := []
  deriving DecidableEq, Repr

/-- The rows of the clients, the routes that the server was set up with, and
the file of connections on the host. Certificates on the revocation list are not
part of this model. -/
structure State where
  clients : KeyTable Text Client
  routes : Option (List Text × Bool)
  conf : Option Text

/-- What the world does to one call: the authority that `getCA` gives, the
draws, and how each read, write and remote command goes. -/
structure Env where
  ca : Option CA := none
  draw : Nat := 0
  randPassword : Option Text := none
  activeSAs : List ActiveSA := []
  getClient : Bool := true
  listClients : Bool := true
  getRoutes : Bool := true
  saveClient : Outcome := .ok
  deleteClient : Outcome := .ok
  saveRoutes : Outcome := .ok
  writeConf : Outcome := .ok
  load : Bool := true
  revoke : Bool := true
  prepareHost : Bool := true

/-- The rows with subnets. -/
def siteClients (clients : KeyTable Text Client) : List SiteClient :=
  clients.rows.filterMap fun r => if r.2.subnets = [] then none else some ⟨r.1, r.2.subnets.splitOn ','⟩

def localTS (pushRoutes : List Text) (egress : Bool) : List Text :=
  pushRoutes ++ if egress then ["0.0.0.0/0".toList] else []

variable (opts : Options) (crypto : Crypto) (env : Env)

def serverParams (pushRoutes : List Text) (egress : Bool) (clients : KeyTable Text Client) : ServerParams where
  connName := opts.connName
  serverID := opts.serverID
  pool := opts.pool
  dns := opts.dns
  localTS := localTS pushRoutes egress
  caCertFile := "ca.crt".toList
  serverCert := "server.crt".toList
  siteClients := siteClients clients

/-- The repeated loading while the service starts is one step. A file that is
written ends with one more newline than the text. -/
def writeConnAndLoad (pushRoutes : List Text) (egress : Bool) : Proc State Unit := do
  let clients ← Proc.read fun s => if env.listClients then some s.clients else none
  Proc.write env.writeConf fun s =>
    { s with conf := some ((serverParams opts pushRoutes egress clients).renderConnections ++ ['\n']) }
  Proc.guard env.load

/-- Nothing to do before the server is set up. -/
def applyClients : Proc State Unit := do
  match ← Proc.read fun s => if env.getRoutes then some s.routes else none with
  | none => return
  | some (pushRoutes, egress) => writeConnAndLoad opts env pushRoutes egress

def getClient (cn : Text) : Proc State Client :=
  Proc.read fun s => if env.getClient then s.clients.get cn else none

/-- An upsert. A missing key is written as `NULL`, which the column refuses. -/
def saveClient (cn certPEM : Text) (encKeyPEM : Option Text) (p12pass address : Text) (subnets : List Text) :
    Proc State Unit := do
  let key ← Proc.lift encKeyPEM
  Proc.write env.saveClient fun s =>
    { s with clients := s.clients.upsert cn ⟨certPEM, key, p12pass, address, [','].intercalate subnets⟩ }

/-- The row, then the connections. -/
def storeClient (cn certPEM : Text) (encKeyPEM : Option Text) (p12pass address : Text) (subnets : List Text) :
    Proc State Unit := do
  saveClient env cn certPEM encKeyPEM p12pass address subnets
  applyClients opts env

def addPeer (name : Text) (allowedIPs : List Text) : Proc State Peer := do
  let cn := Text.trimSpace name
  Proc.guard (cn ≠ [])
  let ca ← Proc.lift env.ca
  let (certPEM, keyPEM) ← Proc.lift (crypto.issue ca cn env.draw)
  let enc ← Proc.lift (crypto.sealText env.draw keyPEM)
  let pass ← Proc.lift env.randPassword
  let (address, subnets) := splitAllowedIPs allowedIPs
  storeClient opts env cn certPEM (some enc) pass address subnets
  return { id := cn, allowedIPs }

def addPeerFromCSR (csrPEM name : Text) (allowedIPs : List Text) : Proc State Peer := do
  let cn := Text.trimSpace name
  Proc.guard (cn ≠ [])
  let ca ← Proc.lift env.ca
  let certPEM ← Proc.lift (crypto.signCSR ca csrPEM cn env.draw)
  let (address, subnets) := splitAllowedIPs allowedIPs
  storeClient opts env cn certPEM none [] address subnets
  return { id := cn, allowedIPs }

def importPeer (certPEM keyPEM : Text) : Proc State Peer := do
  let certPEM := Text.trimSpace certPEM
  let keyPEM := Text.trimSpace keyPEM
  let ca ← Proc.lift env.ca
  let cn ← Proc.lift (verifyClientCert crypto ca certPEM)
  if keyPEM = [] then storeClient opts env cn certPEM none [] [] []
  else
    Proc.guard (crypto.matchesPrivateKey certPEM keyPEM)
    let enc ← Proc.lift (crypto.sealText env.draw keyPEM)
    let pass ← Proc.lift env.randPassword
    storeClient opts env cn certPEM (some enc) pass [] []
  return { id := cn, allowedIPs := [] }

def updatePeer (id : Text) (allowedIPs : List Text) : Proc State Unit := do
  let row ← getClient env id
  let (address, subnets) := splitAllowedIPs allowedIPs
  storeClient opts env id row.certPEM (some row.encKeyPEM) row.p12pass address subnets

def removePeer (id : Text) : Proc State Unit := do
  Proc.guard env.revoke
  Proc.write env.deleteClient fun s => { s with clients := s.clients.delete id }
  applyClients opts env

/-- The server's own files are not part of this model, only that writing them
may fail. -/
def ensureServer (pushRoutes : List Text) (egress : Bool) : Proc State Unit := do
  Proc.guard env.prepareHost
  Proc.write env.saveRoutes fun s => { s with routes := some (pushRoutes, egress) }
  writeConnAndLoad opts env pushRoutes egress

/-- A client that is connected shows where from. Without an address of its own
it shows the one it was given. -/
def shownPeer (online : List ActiveSA) (cn : Text) (row : Client) : Peer :=
  let allowed := listedIPs row.address row.subnets
  match online.reverse.find? fun sa => sa.remoteID = cn with
  | none => { id := cn, allowedIPs := allowed, p12pass := row.p12pass }
  | some sa =>
    { id := cn
      allowedIPs := if allowed = [] ∧ sa.vip ≠ [] then [sa.vip] else allowed
      p12pass := row.p12pass
      online := true
      endpoint := sa.remote }

def listPeers : Proc State (List Peer) :=
  Proc.read fun s =>
    if env.listClients then some (s.clients.rows.map fun r => shownPeer env.activeSAs r.1 r.2) else none

/-- What the panel is asked to do with the clients of an instance. The addresses
are what the request names and what the catalog and the client's row add to it. -/
inductive Request
  | create (name : Text) (allowedIPs : List Text)
  | createFromCSR (csrPEM name : Text) (allowedIPs : List Text)
  | importPeer (certPEM keyPEM : Text)
  | update (id : Text) (allowedIPs : List Text)
  | delete (id : Text)
  | provision (pushRoutes : List Text) (egress : Bool)
  deriving DecidableEq, Repr

/-- A name is checked before it goes to the provider. -/
def serve (letterOrNumber : Char → Bool) : Request → Proc State Unit
  | .create name allowedIPs => do
    let name := Text.trimSpace name
    Proc.guard (validPeerName letterOrNumber name)
    let _ ← addPeer opts crypto env name allowedIPs
  | .createFromCSR csrPEM name allowedIPs => do
    let name := Text.trimSpace name
    Proc.guard (validPeerName letterOrNumber name)
    let _ ← addPeerFromCSR opts crypto env csrPEM name allowedIPs
  | .importPeer certPEM keyPEM => do
    let _ ← importPeer opts crypto env certPEM keyPEM
  | .update id allowedIPs => updatePeer opts env id allowedIPs
  | .delete id => removePeer opts env id
  | .provision pushRoutes egress => ensureServer opts env pushRoutes egress

def State.initial : State := ⟨KeyTable.empty, none, none⟩

/-- One request, with what the world does to it. -/
def step (letterOrNumber : Char → Bool) (s : State) (e : Request × Env) : State :=
  ((serve opts crypto e.2 letterOrNumber e.1).exec s).2

section
variable {opts crypto env} {cn certPEM p12pass address name : Text} {encKeyPEM : Option Text}
  {subnets allowedIPs pushRoutes : List Text} {egress : Bool} {I : KeyTable Text Client → Prop}
open Proc (Triple Keeps)

theorem keeps_writeConnAndLoad : Keeps (fun s => I s.clients) (writeConnAndLoad opts env pushRoutes egress) := by
  refine (Keeps.read _).bind fun _ => Keeps.bind ?_ fun _ => Keeps.guard _
  exact Keeps.write fun _ holds => holds

/-- Loading the connections changes no row. -/
theorem keeps_applyClients : Keeps (fun s => I s.clients) (applyClients opts env) := by
  refine (Keeps.read _).bind fun routes => ?_
  cases routes with
  | none => exact Keeps.pure _
  | some routes => exact keeps_writeConnAndLoad

theorem storeClient_row :
    Triple (fun _ => True) (storeClient opts env cn certPEM encKeyPEM p12pass address subnets)
      (fun _ s => ∃ key, s.clients.get cn = some ⟨certPEM, key, p12pass, address, [','].intercalate subnets⟩)
      fun _ => True := by
  have saved : Triple (fun _ => True) (saveClient env cn certPEM encKeyPEM p12pass address subnets)
      (fun _ s => ∃ key, s.clients.get cn = some ⟨certPEM, key, p12pass, address, [','].intercalate subnets⟩)
      fun _ => True := by
    refine Triple.lift_bind (fun _ _ _ => trivial) fun key _ => ?_
    refine Triple.write (fun s _ _ => ⟨key, ?_⟩) (fun _ _ _ => trivial) fun _ _ _ => trivial
    rw [KeyTable.get_upsert, if_pos rfl]
  refine saved.bind fun _ => Keeps.leads ?_ fun _ _ => trivial
  exact keeps_applyClients (I := fun t =>
    ∃ key, t.get cn = some ⟨certPEM, key, p12pass, address, [','].intercalate subnets⟩)

/-- A client that was added has a row with its address and its subnets. -/
theorem addPeer_row :
    Triple (fun _ => True) (addPeer opts crypto env name allowedIPs)
      (fun new s => ∃ certPEM key p12pass, s.clients.get new.id = some ⟨certPEM, key, p12pass,
        (splitAllowedIPs allowedIPs).1, [','].intercalate (splitAllowedIPs allowedIPs).2⟩) fun _ => True := by
  refine Triple.guard_bind (fun _ _ _ => trivial) fun _ => Triple.lift_bind (fun _ _ _ => trivial) fun ca _ =>
    Triple.lift_bind (fun _ _ _ => trivial) fun issued _ => Triple.lift_bind (fun _ _ _ => trivial) fun enc _ =>
      Triple.lift_bind (fun _ _ _ => trivial) fun pass _ => ?_
  exact storeClient_row.bind fun _ => Triple.pure fun s ⟨key, row⟩ => ⟨issued.1, key, pass, row⟩

end

end Protean.Ikev2
