import Protean.Proc
import Protean.KeyTable
import Protean.Text

namespace Protean.Cert

/-- The two providers that hand out certificates. -/
inductive Kind
  | openvpn
  | ikev2
  deriving DecidableEq, Repr

structure CA where
  certPEM : Text
  keyPEM : Text
  deriving DecidableEq, Repr

/-- The cryptography under the providers. Keys, serials and nonces are drawn:
the number says which draw. -/
structure Crypto where
  newInternalCA : Nat → Option CA
  loadCA : Text → Text → Option CA
  issue : CA → Text → Nat → Option (Text × Text)
  issueServer : CA → Nat → Option (Text × Text)
  signCSR : CA → Text → Text → Nat → Option Text
  commonName : Text → Option Text
  serial : Text → Option Int
  verifies : CA → Text → Bool
  matchesPrivateKey : Text → Text → Bool
  sealText : Nat → Text → Option Text
  openText : Text → Option Text

structure CAMaterial where
  certPEM : Text
  encKeyPEM : Text
  external : Bool
  deriving DecidableEq, Repr

/-- A row of the client table. The column of the sealed key is `NOT NULL`. -/
structure Client where
  certPEM : Text
  encKeyPEM : Text
  deriving DecidableEq, Repr

structure RevokedCertRow where
  serial : Text
  cn : Text
  revokedAt : Nat
  deriving DecidableEq, Repr

structure CRL where
  issuer : CA
  entries : List (Int × Nat)
  number : Nat
  deriving DecidableEq, Repr

/-- One instance: the authority its provider keeps in memory, its rows in the
database, and what is on its host: the revocation list last written and, for
OpenVPN, which names have a file in the client directory. -/
structure State where
  ca : Option CA
  material : Option CAMaterial
  clients : KeyTable Text Client
  revoked : List RevokedCertRow
  crlNumber : Option Nat
  crl : Option CRL
  ccd : Text → Bool

/-- What the world does to one call: which reads and remote commands work, how
each write goes, the time, and the draws. -/
structure Env where
  now : Nat := 0
  draw : Nat := 0
  getCAMaterial : Bool := true
  saveCAMaterial : Outcome := .ok
  getClient : Bool := true
  listClients : Bool := true
  saveClient : Outcome := .ok
  deleteClient : Outcome := .ok
  addRevokedCert : Outcome := .ok
  listRevokedCerts : Bool := true
  nextCRLNumber : Outcome := .ok
  createCRL : Bool := true
  writeCRL : Outcome := .ok
  writeCCD : Outcome := .ok
  removeCCD : Outcome := .ok
  randPassword : Bool := true
  applyClients : Bool := true
  buildP12 : Bool := true
  prepareHost : Bool := true
  startServer : Bool := true

variable (crypto : Crypto) (env : Env)

def getClient (cn : Text) : Proc State Client :=
  Proc.read fun s => if env.getClient then s.clients.get cn else none

/-- An upsert. A missing key is written as `NULL`, which the column refuses. -/
def saveClient (cn certPEM : Text) (encKeyPEM : Option Text) : Proc State Unit := do
  let key ← Proc.lift encKeyPEM
  Proc.write env.saveClient fun s => { s with clients := s.clients.upsert cn ⟨certPEM, key⟩ }

def deleteClient (cn : Text) : Proc State Unit :=
  Proc.write env.deleteClient fun s => { s with clients := s.clients.delete cn }

/-- A serial that is there already stays as it is. -/
def addRevokedCert (serial cn : Text) : Proc State Unit :=
  Proc.write env.addRevokedCert fun s =>
    if serial ∈ s.revoked.map (·.serial) then s else { s with revoked := s.revoked ++ [⟨serial, cn, env.now⟩] }

def nextCRLNumber : Proc State Nat := do
  Proc.write env.nextCRLNumber fun s => { s with crlNumber := some ((s.crlNumber.getD 0) + 1) }
  Proc.read fun s => s.crlNumber

/-- Opens and loads stored material, and keeps the authority in memory. -/
def fromMaterial (stored : CAMaterial) : Proc State CA := do
  let keyPEM ← Proc.lift (crypto.openText stored.encKeyPEM)
  let ca ← Proc.lift (crypto.loadCA stored.certPEM keyPEM)
  Proc.modify fun s => { s with ca := some ca }
  return ca

/-- A failed read is taken for a missing row, and a new authority is stored in
its place. -/
def getCA : Proc State CA := do
  match ← Proc.attempt (Proc.read State.ca) with
  | some ca => return ca
  | none =>
    match ← Proc.attempt (Proc.read fun s => if env.getCAMaterial then s.material else none) with
    | some stored => fromMaterial crypto stored
    | none =>
      let ca ← Proc.lift (crypto.newInternalCA env.draw)
      let enc ← Proc.lift (crypto.sealText env.draw ca.keyPEM)
      Proc.write env.saveCAMaterial fun s => { s with material := some ⟨ca.certPEM, enc, false⟩ }
      Proc.modify fun s => { s with ca := some ca }
      return ca

/-- All recorded revocations; one whose serial is no number is skipped. -/
def crlEntries (rows : List RevokedCertRow) : List (Int × Nat) :=
  rows.filterMap fun r => (Text.readSigned r.serial).map fun serial => (serial, r.revokedAt)

def rebuildCRL (ca : CA) : Proc State Unit := do
  let rows ← Proc.read fun s => if env.listRevokedCerts then some s.revoked else none
  let number ← nextCRLNumber env
  Proc.guard env.createCRL
  Proc.write env.writeCRL fun s => { s with crl := some ⟨ca, crlEntries rows, number⟩ }

/-- `VerifyClientCert`: the common name of a certificate of this authority. -/
def verifyClientCert (ca : CA) (certPEM : Text) : Option Text :=
  (crypto.commonName certPEM).filter fun cn => cn ≠ [] && crypto.verifies ca certPEM

/-- The text of the file is not part of this model. -/
def writeCCD (cn : Text) : Proc State Unit :=
  Proc.write env.writeCCD fun s => { s with ccd := Function.update s.ccd cn true }

/-- OpenVPN writes the client's own file before the row, IKEv2 loads the
connections after it. -/
def storeClient (kind : Kind) (cn certPEM : Text) (encKeyPEM : Option Text) : Proc State Unit := do
  Proc.when (kind = .openvpn) (writeCCD env cn)
  saveClient env cn certPEM encKeyPEM
  Proc.when (kind = .ikev2) (Proc.guard env.applyClients)

/-- IKEv2 draws a password with every key it keeps. -/
def drawPassword (kind : Kind) : Proc State Unit :=
  Proc.when (kind = .ikev2) (Proc.guard env.randPassword)

section
-- how a call gets the authority it works with: `getCA` in a provider
variable (authority : Proc State CA)

def addPeer (kind : Kind) (name : Text) : Proc State Unit := do
  let cn := Text.trimSpace name
  Proc.guard (cn ≠ [])
  let ca ← authority
  let (certPEM, keyPEM) ← Proc.lift (crypto.issue ca cn env.draw)
  let enc ← Proc.lift (crypto.sealText env.draw keyPEM)
  drawPassword env kind
  storeClient env kind cn certPEM (some enc)

def addPeerFromCSR (kind : Kind) (csrPEM name : Text) : Proc State Unit := do
  let cn := Text.trimSpace name
  Proc.guard (cn ≠ [])
  let ca ← authority
  let certPEM ← Proc.lift (crypto.signCSR ca csrPEM cn env.draw)
  storeClient env kind cn certPEM none

def importPeer (kind : Kind) (certPEM keyPEM : Text) : Proc State Unit := do
  let certPEM := Text.trimSpace certPEM
  let keyPEM := Text.trimSpace keyPEM
  let ca ← authority
  let cn ← Proc.lift (verifyClientCert crypto ca certPEM)
  if keyPEM = [] then storeClient env kind cn certPEM none
  else
    Proc.guard (crypto.matchesPrivateKey certPEM keyPEM)
    let enc ← Proc.lift (crypto.sealText env.draw keyPEM)
    drawPassword env kind
    storeClient env kind cn certPEM (some enc)

/-- The certificate and the key stay; the routing is not part of this model. -/
def updatePeer (kind : Kind) (id : Text) : Proc State Unit := do
  let row ← getClient env id
  storeClient env kind id row.certPEM (some row.encKeyPEM)

/-- Any error of the read counts as nothing stored. -/
def revoke (cn : Text) : Proc State Unit := do
  match ← Proc.attempt (getClient env cn) with
  | none => return
  | some row =>
    let serial ← Proc.lift (crypto.serial row.certPEM)
    addRevokedCert env (Text.itoa serial) cn
    let ca ← authority
    rebuildCRL env ca

/-- `rm -f`, whatever comes of it. -/
def removeCCD (cn : Text) : Proc State Unit := do
  let _ ← Proc.attempt (Proc.write env.removeCCD fun s => { s with ccd := Function.update s.ccd cn false })

def removePeer (kind : Kind) (id : Text) : Proc State Unit := do
  revoke crypto env authority id
  Proc.when (kind = .openvpn) (removeCCD env id)
  deleteClient env id
  Proc.when (kind = .ikev2) (Proc.guard env.applyClients)

/-- `RebuildCRL`. -/
def rebuild : Proc State Unit := do
  let ca ← authority
  rebuildCRL env ca

def importCA (certPEM keyPEM : Text) : Proc State Unit := do
  let ca ← Proc.lift (crypto.loadCA certPEM keyPEM)
  let enc ← Proc.lift (crypto.sealText env.draw keyPEM)
  Proc.write env.saveCAMaterial fun s => { s with material := some ⟨certPEM, enc, true⟩ }
  Proc.modify fun s => { s with ca := some ca }

/-- What a client gets to download. -/
structure Bundle where
  caCertPEM : Text
  certPEM : Text
  keyPEM : Option Text
  deriving DecidableEq, Repr

/-- Without a key on the server, OpenVPN leaves the key out of the profile and
IKEv2 hands out the certificates alone. -/
def clientConfigFile (kind : Kind) (id : Text) : Proc State Bundle := do
  let ca ← authority
  let row ← getClient env id
  if row.encKeyPEM = [] then return ⟨ca.certPEM, row.certPEM, none⟩
  else
    let keyPEM ← Proc.lift (crypto.openText row.encKeyPEM)
    Proc.when (kind = .ikev2) (Proc.guard env.buildP12)
    return ⟨ca.certPEM, row.certPEM, some keyPEM⟩

/-- The two profiles that hold the key. Only IKEv2 offers them. -/
def clientProfile (kind : Kind) (id format : Text) : Proc State Bundle := do
  Proc.guard (kind = .ikev2)
  let ca ← authority
  let row ← getClient env id
  Proc.guard (row.encKeyPEM ≠ [])
  let keyPEM ← Proc.lift (crypto.openText row.encKeyPEM)
  Proc.guard env.buildP12
  Proc.guard (format = "mobileconfig".toList ∨ format = "sswan".toList)
  return ⟨ca.certPEM, row.certPEM, some keyPEM⟩

/-- The names of the configured clients. -/
def listPeers : Proc State (List Text) :=
  Proc.read fun s => if env.listClients then some (s.clients.rows.map Prod.fst) else none

/-- The server's own files are not part of this model, only that writing them
and starting the service may fail. -/
def ensureServer : Proc State Unit := do
  let ca ← authority
  let _ ← Proc.lift (crypto.issueServer ca env.draw)
  Proc.guard env.prepareHost
  rebuildCRL env ca
  Proc.guard env.startServer

end

inductive Op
  | addPeer (name : Text)
  | addPeerFromCSR (csrPEM name : Text)
  | importPeer (certPEM keyPEM : Text)
  | updatePeer (id : Text)
  | removePeer (id : Text)
  | rebuildCRL
  | clientConfigFile (id : Text)
  | clientProfile (id format : Text)
  | ensureServer
  | importCA (certPEM keyPEM : Text)
  /-- A new provider for the same instance. -/
  | new
  deriving DecidableEq, Repr

/-- A call, given how it gets the authority. -/
def runBy (authority : Proc State CA) (kind : Kind) : Op → Proc State Unit
  | .addPeer name => addPeer crypto env authority kind name
  | .addPeerFromCSR csrPEM name => addPeerFromCSR crypto env authority kind csrPEM name
  | .importPeer certPEM keyPEM => importPeer crypto env authority kind certPEM keyPEM
  | .updatePeer id => updatePeer env kind id
  | .removePeer id => removePeer crypto env authority kind id
  | .rebuildCRL => rebuild env authority
  | .clientConfigFile id => do
    let _ ← clientConfigFile crypto env authority kind id
  | .clientProfile id format => do
    let _ ← clientProfile crypto env authority kind id format
  | .ensureServer => ensureServer crypto env authority
  | .importCA certPEM keyPEM => importCA crypto env certPEM keyPEM
  | .new => Proc.modify fun s => { s with ca := none }

def run (kind : Kind) (op : Op) : Proc State Unit := runBy crypto env (getCA crypto env) kind op

/-- One call, with what the world does to it. -/
def step (crypto : Crypto) (kind : Kind) (s : State) (e : Op × Env) : State := ((run crypto e.2 kind e.1).exec s).2

def State.initial : State := ⟨none, none, KeyTable.empty, [], none, none, fun _ => false⟩

/-- Certificates that are a number and a name, and keys that are numbers. -/
def sampleCrypto : Crypto where
  newInternalCA n := some ⟨"ca".toList ++ Text.itoa n, "key".toList ++ Text.itoa n⟩
  loadCA certPEM keyPEM := if certPEM.drop 2 = keyPEM.drop 3 then some ⟨certPEM, keyPEM⟩ else none
  issue _ cn n := some (Text.itoa n ++ ':' :: cn, "key".toList ++ Text.itoa n)
  issueServer _ n := some (Text.itoa n ++ ":server".toList, "key".toList ++ Text.itoa n)
  signCSR _ _ cn n := some (Text.itoa n ++ ':' :: cn)
  commonName certPEM := some ((certPEM.dropWhile (· ≠ ':')).drop 1)
  serial certPEM := Text.readSigned (certPEM.takeWhile (· ≠ ':'))
  verifies _ certPEM := ':' ∈ certPEM
  matchesPrivateKey certPEM keyPEM := certPEM.takeWhile (· ≠ ':') = keyPEM.drop 3
  sealText _ text := some ('|' :: text)
  openText
    | '|' :: text => some text
    | _ => none

end Protean.Cert
