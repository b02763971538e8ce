import Mathlib.Logic.Function.Basic

namespace Protean.KeyRotate

/-- The tables that hold sealed columns. -/
inductive TableName
  | peerSecrets
  | caMaterial
  | openvpnClients
  | ikev2Clients
  | notifyChannels
  | servers
  | xrayInstances
  | xrayClients
  | tlsState
  | acmeCache
  | tlsSelfSigned
  | ldapSettings
  | oidcSettings
  deriving DecidableEq, Repr

/-- Their key columns and their sealed columns. -/
inductive Column
  | provider
  | publicKey
  | cn
  | kind
  | id
  | name
  | key
  | encryptedPrivateKey
  | encKeyPEM
  | config
  | encParams
  | encRelay
  | encCred
  | manualKeyEnc
  | value
  | caKeyEnc
  | leafKeyEnc
  | encBindPassword
  | encClientSecret
  deriving DecidableEq, Repr

structure SealedColumn where
  table : TableName
  column : Column
  keyCols : List Column
  deriving DecidableEq, Repr

def sealedColumns : List SealedColumn :=
  [⟨.peerSecrets, .encryptedPrivateKey, [.provider, .publicKey]⟩,
    ⟨.caMaterial, .encKeyPEM, [.provider]⟩,
    ⟨.openvpnClients, .encKeyPEM, [.cn]⟩,
    ⟨.ikev2Clients, .encKeyPEM, [.cn]⟩,
    ⟨.notifyChannels, .config, [.kind]⟩,
    ⟨.servers, .encKeyPEM, [.id]⟩,
    ⟨.xrayInstances, .encParams, [.provider]⟩,
    ⟨.xrayInstances, .encRelay, [.provider]⟩,
    ⟨.xrayClients, .encCred, [.provider, .name]⟩,
    ⟨.tlsState, .manualKeyEnc, [.id]⟩,
    ⟨.acmeCache, .value, [.key]⟩,
    ⟨.tlsSelfSigned, .caKeyEnc, [.id]⟩,
    ⟨.tlsSelfSigned, .leafKeyEnc, [.id]⟩,
    ⟨.ldapSettings, .encBindPassword, [.id]⟩,
    ⟨.oidcSettings, .encClientSecret, [.id]⟩]

/-- The primary keys after all migrations. -/
def primaryKey : TableName → List Column
  | .peerSecrets => [.provider, .publicKey]
  | .caMaterial => [.provider]
  | .openvpnClients => [.provider, .cn]
  | .ikev2Clients => [.provider, .cn]
  | .notifyChannels => [.kind]
  | .servers => [.id]
  | .xrayInstances => [.provider]
  | .xrayClients => [.provider, .name]
  | .tlsState => [.id]
  | .acmeCache => [.key]
  | .tlsSelfSigned => [.id]
  | .ldapSettings => [.id]
  | .oidcSettings => [.id]

/-- The sealed columns that may be `NULL`. -/
def nullable : TableName → Column → Bool
  | .xrayInstances, .encRelay => true
  | .tlsState, .manualKeyEnc => true
  | .tlsSelfSigned, .leafKeyEnc => true
  | _, _ => false

abbrev Bytes := List UInt8

/-- The smallest sealed blob: a nonce and a tag. -/
def minSealedBlobLen : Nat := 12 + 16

/-- A sealing key. The number says which nonce is drawn. -/
structure Encryptor where
  sealText : Nat → Bytes → Bytes
  openBlob : Bytes → Option Bytes

/-- What is documented of a sealing: it opens again, and holds its nonce and tag. -/
structure Encryptor.Documented (enc : Encryptor) : Prop where
  opens : ∀ n plaintext, enc.openBlob (enc.sealText n plaintext) = some plaintext
  long : ∀ n plaintext, minSealedBlobLen ≤ (enc.sealText n plaintext).length

/-- A row, as far as the rotation reads it. -/
structure Row (κ : Type) where
  key : Column → κ
  blob : Column → Option Bytes

abbrev Database (κ : Type) := TableName → List (Row κ)

structure ColumnReport where
  table : TableName
  column : Column
  rewritten : Nat
  skippedEmpty : Nat
  skippedNull : Nat
  deriving DecidableEq, Repr

inductive ColumnError (κ : Type)
  | select
  | openOld (keyVals : List κ)
  | sealNew (keyVals : List κ)
  | update (keyVals : List κ)
  | verifySelect (keyVals : List κ)
  | verifyOpen (keyVals : List κ)
  | verifyMismatch (keyVals : List κ)
  deriving DecidableEq, Repr

inductive Error (κ : Type)
  | beginTx
  | column (sc : SealedColumn) (e : ColumnError κ)
  | commit
  deriving DecidableEq, Repr

/-- What the database and the nonce source do to one rotation: in which order
a query gives its rows, which row a query for one row gives, which of the
calls fail. -/
structure World (κ : Type) where
  beginTx : Bool
  select : SealedColumn → List (Row κ) → Option (List (Row κ))
  draw : SealedColumn → Nat → Option Nat
  update : SealedColumn → Nat → Bool
  queryRow : SealedColumn → Nat → List (Row κ) → Option (Row κ)
  commit : Bool

/-- A query gives all its rows, and a query for one row one of them. -/
structure World.Documented {κ : Type} (w : World κ) : Prop where
  select : ∀ sc rows selected, w.select sc rows = some selected → selected.Perm rows
  queryRow : ∀ sc i rows r, w.queryRow sc i rows = some r → r ∈ rows

structure PendingRow (κ : Type) where
  keyVals : List κ
  plaintext : Bytes
  deriving DecidableEq, Repr

structure Scan (κ : Type) where
  skippedNull : Nat := 0
  skippedEmpty : Nat := 0
  pending : List (PendingRow κ) := []

section
variable {κ : Type} [DecidableEq κ] (w : World κ) (oldEnc newEnc : Encryptor) (sc : SealedColumn)

def keyVals (r : Row κ) : List κ := sc.keyCols.map r.key

/-- The first loop: what the rows hold, before anything is written. -/
def scan (acc : Scan κ) : List (Row κ) → Except (ColumnError κ) (Scan κ)
  | [] => .ok acc
  | r :: rows =>
    match r.blob sc.column with
    | none => scan { acc with skippedNull := acc.skippedNull + 1 } rows
    | some blob =>
      if blob.length < minSealedBlobLen then scan { acc with skippedEmpty := acc.skippedEmpty + 1 } rows
      else
        match oldEnc.openBlob blob with
        | none => .error (.openOld (keyVals sc r))
        | some plaintext => scan { acc with pending := acc.pending ++ [⟨keyVals sc r, plaintext⟩] } rows

/-- `UPDATE ... SET column = blob WHERE` the key columns have these values. -/
def setWhere (vals : List κ) (blob : Bytes) (r : Row κ) : Row κ :=
  if keyVals sc r = vals then { r with blob := Function.update r.blob sc.column (some blob) } else r

def rewrite : Nat → List (PendingRow κ) → List (Row κ) → Except (ColumnError κ) (List (Row κ))
  | _, [], rows => .ok rows
  | i, p :: ps, rows =>
    match w.draw sc i with
    | none => .error (.sealNew p.keyVals)
    | some n =>
      if w.update sc i then rewrite (i + 1) ps (rows.map (setWhere sc p.keyVals (newEnc.sealText n p.plaintext)))
      else .error (.update p.keyVals)

def verify (rows : List (Row κ)) : Nat → List (PendingRow κ) → Except (ColumnError κ) Unit
  | _, [] => .ok ()
  | i, p :: ps =>
    match w.queryRow sc i (rows.filter fun r => keyVals sc r = p.keyVals) with
    | none => .error (.verifySelect p.keyVals)
    | some r =>
      match (r.blob sc.column).bind newEnc.openBlob with
      | none => .error (.verifyOpen p.keyVals)
      | some got => if got = p.plaintext then verify rows (i + 1) ps else .error (.verifyMismatch p.keyVals)

def rotateColumn (rows : List (Row κ)) : Except (ColumnError κ) (ColumnReport × List (Row κ)) :=
  match w.select sc rows with
  | none => .error .select
  | some selected => do
    let found ← scan oldEnc sc {} selected
    let rewritten ← rewrite w newEnc sc 0 found.pending rows
    verify w newEnc sc rewritten 0 found.pending
    return (⟨sc.table, sc.column, found.pending.length, found.skippedEmpty, found.skippedNull⟩, rewritten)

def rotateAll : List SealedColumn → Database κ → Except (Error κ) (List ColumnReport × Database κ)
  | [], db => .ok ([], db)
  | sc :: scs, db =>
    match rotateColumn w oldEnc newEnc sc (db sc.table) with
    | .error e => .error (.column sc e)
    | .ok (cr, rows) => do
      let (crs, db') ← rotateAll scs (Function.update db sc.table rows)
      return (cr :: crs, db')

/-- The answer and the database after it. All is one transaction. -/
def rotate (dryRun : Bool) (db : Database κ) : Except (Error κ) (List ColumnReport) × Database κ :=
  if w.beginTx then
    match rotateAll w oldEnc newEnc sealedColumns db with
    | .error e => (.error e, db)
    | .ok (report, db') =>
      if dryRun then (.ok report, db)
      else if w.commit then (.ok report, db')
      else (.error .commit, db)
  else (.error .beginTx, db)

end

end Protean.KeyRotate
