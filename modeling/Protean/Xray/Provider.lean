import Mathlib.Data.List.Sort
import Protean.KeyTable
import Protean.Proc
import Protean.Xray.Config

namespace Protean.Xray

structure Instance where
  strategy : Text
  params : Params
  relays : List RelaySpec
  deriving DecidableEq, Repr

structure InstanceRow (B : Type) where
  strategy : Text
  encParams : B
  encRelay : Option B
  deriving DecidableEq, Repr

/-- A config file, with the instance it was built from. -/
structure HostConfig where
  conf : Json
  builtFrom : Instance

/-- One instance: its rows in the database and the config on its host. -/
structure Site (B : Type) where
  row : Option (InstanceRow B)
  clients : KeyTable Text B
  config : Option HostConfig

def Site.fresh (B : Type) : Site B := ⟨none, KeyTable.empty, none⟩

/-- What is sealed and how. A nonce is drawn for each seal; a map of parameters
may come back in another order, and what was read once reads the same again. -/
structure Codecs (J B : Type) where
  sealBlob : Nat → J → B
  openBlob : B → Option J
  writeParams : Params → J
  readParams : J → Option Params
  writeChain : List RelaySpec → J
  readChain : J → Option (List RelaySpec)
  readSingle : J → Option RelaySpec
  writeClient : Client → J
  readClient : J → Option Client
  /-- The order of names in the database. -/
  nameLE : Text → Text → Bool
  open_seal : ∀ n j, openBlob (sealBlob n j) = some j
  read_params : ∀ p, ∃ q, readParams (writeParams p) = some q ∧ ∀ key, q.lookup key = p.lookup key
  read_chain : ∀ j chain, readChain j = some chain → readChain (writeChain chain) = some chain
  read_single : ∀ j hop, readSingle j = some hop → readChain (writeChain [hop]) = some [hop]
  read_client : ∀ c, readClient (writeClient c) = some c

/-- Which steps of reading the instance work. -/
structure Reading where
  getInstance : Bool := true
  openParams : Bool := true
  decodeParams : Bool := true
  openRelay : Bool := true
  decodeRelay : Bool := true

/-- Whether the clients can be listed, and which of them can be read. -/
structure Listing where
  listClients : Bool := true
  reads : Text → Bool := fun _ => true

structure Persisting where
  sealParams : Option Nat := some 0
  sealRelay : Option Nat := some 0
  saveInstance : Outcome := .ok

structure Rebuilding where
  read : Reading := {}
  modules : Text → Option StrategyMethods := fun _ => none
  list : Listing := {}
  writeFile : Outcome := .ok
  enable : Bool := true
  restart : Bool := true

structure Adding where
  read : Reading := {}
  modules : Text → Option StrategyMethods := fun _ => none
  list : Listing := {}
  random : Option (Vector UInt8 16) := some (Vector.replicate 16 0)
  sealCred : Option Nat := some 0
  saveClient : Outcome := .ok
  rebuild : Rebuilding := {}

structure Removing where
  deleteClient : Outcome := .ok
  rebuild : Rebuilding := {}

structure Applying where
  modules : Text → Option StrategyMethods := fun _ => none
  read : Reading := {}
  /-- What is drawn for a secret, and the public half of a key pair. -/
  generate : SecretSpec → Option (Text × Text) := fun _ => none
  persist : Persisting := {}
  list : Listing := {}
  add : Adding := {}
  rebuild : Rebuilding := {}

def secretParamKeys (specs : List SecretSpec) : List String :=
  specs.flatMap fun s => s.key :: if s.pairKey ≠ "" then [s.pairKey] else []

/-- Secrets that are stored and not given are taken over. -/
def carrySecrets (specs : List SecretSpec) (cur params : Params) : Params :=
  (secretParamKeys specs).foldl
    (fun p key => if cur.get key [] ≠ [] ∧ p.get key [] = [] then setField p key (cur.get key []) else p) params

def fillSecret (generate : SecretSpec → Option (Text × Text)) (s : SecretSpec) (p : Params) : Option Params :=
  match s.kind with
  | .realityKeypair => (generate s).map fun pair => setField (setField p s.key pair.1) s.pairKey pair.2
  | .unknown _ => none
  | _ => (generate s).map fun drawn => setField p s.key drawn.1

def ensureInstanceCrypto (generate : SecretSpec → Option (Text × Text)) : List SecretSpec → Params → Option Params
  | [], p => some p
  | s :: specs, p =>
    if p.get s.key [] ≠ [] then ensureInstanceCrypto generate specs p
    else (fillSecret generate s p).bind (ensureInstanceCrypto generate specs)

variable {J B : Type} (k : Codecs J B)

/-- A row of before chains holds one relay instead of a list. -/
def decodeRelayChain (raw : J) : Option (List RelaySpec) :=
  match k.readChain raw with
  | some chain => some chain
  | none => (k.readSingle raw).map fun single => if single.strategy = [] then [] else [single]

def readInstance (r : Reading) : Proc (Site B) Instance := do
  Proc.guard r.getInstance
  let row ← Proc.read Site.row
  Proc.guard r.openParams
  let pj ← Proc.lift (k.openBlob row.encParams)
  Proc.guard r.decodeParams
  let params ← Proc.lift (k.readParams pj)
  match row.encRelay with
  | none => return ⟨row.strategy, params, []⟩
  | some encRelay =>
    Proc.guard r.openRelay
    let rj ← Proc.lift (k.openBlob encRelay)
    Proc.guard r.decodeRelay
    let relays ← Proc.lift (decodeRelayChain k rj)
    return ⟨row.strategy, params, relays⟩

def persistInstance (e : Persisting) (strategy : Text) (params : Params) (relays : List RelaySpec) :
    Proc (Site B) Unit := do
  let n ← Proc.lift e.sealParams
  let encRelay ← if relays = [] then pure none
    else (fun m => some (k.sealBlob m (k.writeChain relays))) <$> Proc.lift e.sealRelay
  Proc.write e.saveInstance fun t => { t with row := some ⟨strategy, k.sealBlob n (k.writeParams params), encRelay⟩ }

def saveClient (sealCred : Option Nat) (save : Outcome) (c : Client) : Proc (Site B) Unit := do
  let n ← Proc.lift sealCred
  Proc.write save fun t => { t with clients := t.clients.upsert c.name (k.sealBlob n (k.writeClient c)) }

/-- The name is that of the row. -/
def readRow (row : Text × B) : Option Client :=
  ((k.openBlob row.2).bind k.readClient).map fun c => { c with name := row.1 }

/-- The rows of the clients by name. -/
def listed (t : Site B) : List (Text × B) := t.clients.rows.insertionSort fun a b => k.nameLE a.1 b.1 = true

def listClients (l : Listing) : Proc (Site B) (List Client) := do
  Proc.guard l.listClients
  Proc.read fun t => (listed k t).mapM fun row => if l.reads row.1 then readRow k row else none

def rebuild (e : Rebuilding) : Proc (Site B) Unit := do
  let inst ← readInstance k e.read
  let strat ← Proc.lift (get e.modules inst.strategy)
  let clients ← listClients k e.list
  let inbound ← Proc.lift (strat.buildInbound inst.params clients).toOption
  let relays ← Proc.lift (relayOutbounds inst.relays)
  let conf ← Proc.lift (buildServerConfig [inbound] relays)
  Proc.write e.writeFile fun t => { t with config := some ⟨conf, inst⟩ }
  Proc.guard e.enable
  Proc.guard e.restart

/-- A strategy for one client refuses a second one, if the clients can be listed. -/
def singleClient (l : Listing) (strat : StrategyMethods) : Proc (Site B) Unit :=
  if strat.multiClient then pure () else do
    let clients ← Proc.attempt (listClients k l)
    Proc.guard (clients.getD []).isEmpty

def newClient (name : Text) (kind : CredKind) (cred : Text) : Client :=
  match kind with
  | .uuid => ⟨name, cred, []⟩
  | .password => ⟨name, [], cred⟩

def addClient (e : Adding) (name : Text) : Proc (Site B) Unit := do
  Proc.guard (Text.trimSpace name ≠ [])
  let inst ← readInstance k e.read
  let strat ← Proc.lift (get e.modules inst.strategy)
  singleClient k e.list strat
  let random ← Proc.lift e.random
  saveClient k e.sealCred e.saveClient (newClient (Text.trimSpace name) strat.cred (strat.cred.new random))
  rebuild k e.rebuild

def removeClient (e : Removing) (name : Text) : Proc (Site B) Unit := do
  Proc.write e.deleteClient fun t => { t with clients := t.clients.delete name }
  rebuild k e.rebuild

/-- The current instance, if it can be read and has the strategy. Every failure
counts as no instance. -/
def sameStrategy (r : Reading) (strategyName : Text) : Proc (Site B) (Option Instance) := do
  let cur ← Proc.attempt (readInstance k r)
  return cur.filter (·.strategy = strategyName)

def apply (e : Applying) (strategyName : Text) (params : Params) (relays : Option (List RelaySpec)) :
    Proc (Site B) Unit := do
  let strat ← Proc.lift (get e.modules strategyName)
  let same ← sameStrategy k e.read strategyName
  let specs := strat.instanceSecrets
  let params ← Proc.lift (ensureInstanceCrypto e.generate specs
    (same.elim params fun cur => carrySecrets specs cur.params params))
  persistInstance k e.persist strategyName params (relays.getD (same.elim [] Instance.relays))
  let clients ← listClients k e.list
  Proc.when clients.isEmpty (addClient k e.add "default".toList)
  rebuild k e.rebuild

def clientLinks (r : Reading) (modules : Text → Option StrategyMethods) (l : Listing) (publicHost : Text) :
    Proc (Site B) (List (Text × ShareLink)) := do
  let inst ← readInstance k r
  let strat ← Proc.lift (get modules inst.strategy)
  let clients ← listClients k l
  Proc.lift (clients.mapM fun c => (strat.clientLink inst.params c publicHost).map (c.name, ·))

def Reading.works (r : Reading) (row : InstanceRow B) : Bool :=
  r.getInstance && r.openParams && r.decodeParams && (row.encRelay.isNone || r.openRelay && r.decodeRelay)

def paramsOf (row : InstanceRow B) : Option Params := (k.openBlob row.encParams).bind k.readParams

def chainOf (row : InstanceRow B) : Option (List RelaySpec) :=
  match row.encRelay with
  | none => some []
  | some encRelay => (k.openBlob encRelay).bind (decodeRelayChain k)

/-- The instance a row stands for. -/
def decode (row : InstanceRow B) : Option Instance := do
  let params ← paramsOf k row
  let relays ← chainOf k row
  return ⟨row.strategy, params, relays⟩

def instanceOf (r : Reading) (t : Site B) : Option Instance :=
  t.row.bind fun row => if r.works row then decode k row else none

def clientsOf (l : Listing) (t : Site B) : Option (List Client) :=
  if l.listClients then (listed k t).mapM fun row => if l.reads row.1 then readRow k row else none else none

/-- What a rebuild makes of the rows. -/
def built (e : Rebuilding) (t : Site B) : Option HostConfig := do
  let inst ← instanceOf k e.read t
  let strat ← get e.modules inst.strategy
  let clients ← clientsOf k e.list t
  let inbound ← (strat.buildInbound inst.params clients).toOption
  let relays ← relayOutbounds inst.relays
  let conf ← buildServerConfig [inbound] relays
  return ⟨conf, inst⟩

variable {t : Site B}

theorem decode_of_instanceOf {r : Reading} {inst : Instance} (read : instanceOf k r t = some inst) :
    t.row.bind (decode k) = some inst := by
  obtain ⟨row, here, read⟩ := Option.bind_eq_some_iff.mp read
  rw [here, Option.bind_some]
  split at read
  · exact read
  · cases read

theorem of_built {e : Rebuilding} {h : HostConfig} (made : built k e t = some h) :
    ∃ strat clients inbound relays, instanceOf k e.read t = some h.builtFrom ∧
      get e.modules h.builtFrom.strategy = some strat ∧ clientsOf k e.list t = some clients ∧
      strat.buildInbound h.builtFrom.params clients = .ok inbound ∧
      relayOutbounds h.builtFrom.relays = some relays ∧ buildServerConfig [inbound] relays = some h.conf := by
  obtain ⟨inst, read, made⟩ := Option.bind_eq_some_iff.mp made
  obtain ⟨strat, known, made⟩ := Option.bind_eq_some_iff.mp made
  obtain ⟨clients, listed, made⟩ := Option.bind_eq_some_iff.mp made
  obtain ⟨inbound, accepts, made⟩ := Option.bind_eq_some_iff.mp made
  obtain ⟨relays, outs, made⟩ := Option.bind_eq_some_iff.mp made
  obtain ⟨conf, whole, made⟩ := Option.bind_eq_some_iff.mp made
  cases made
  refine ⟨strat, clients, inbound, relays, read, known, listed, ?_, outs, whole⟩
  cases result : strat.buildInbound inst.params clients with
  | error _ => rw [result] at accepts; cases accepts
  | ok _ => rw [result] at accepts; cases accepts; rfl

theorem exec_readInstance (r : Reading) (t : Site B) : (readInstance k r).exec t = (instanceOf k r t, t) := by
  unfold readInstance instanceOf Reading.works
  rw [Proc.exec_guard_bind]
  cases found : t.row with
  | none =>
    rw [Proc.exec_bind, Proc.exec_read, found]
    split <;> rfl
  | some row =>
    rw [Proc.exec_bind, Proc.exec_read, found]
    dsimp only [Option.bind_some]
    rw [Proc.exec_guard_bind, Proc.exec_lift_bind]
    simp only [Proc.exec_guard_bind, Proc.exec_lift_bind, decode, paramsOf, chainOf]
    cases r.getInstance with
    | false => rfl
    | true =>
      cases r.openParams with
      | false => rfl
      | true =>
        cases k.openBlob row.encParams with
        | none => simp
        | some pj =>
          dsimp only [Option.bind_some]
          cases r.decodeParams with
          | false => rfl
          | true =>
            cases k.readParams pj with
            | none => simp
            | some params =>
              cases row.encRelay with
              | none => rfl
              | some encRelay =>
                simp only [if_true, Proc.exec_guard_bind, Proc.exec_lift_bind]
                cases r.openRelay with
                | false => rfl
                | true =>
                  cases k.openBlob encRelay with
                  | none => simp
                  | some rj =>
                    dsimp only [Option.bind_some]
                    cases r.decodeRelay with
                    | false => rfl
                    | true =>
                      cases decodeRelayChain k rj with
                      | none => rfl
                      | some relays => rfl

theorem exec_listClients (l : Listing) (t : Site B) : (listClients k l).exec t = (clientsOf k l t, t) := by
  unfold listClients clientsOf
  rw [Proc.exec_guard_bind]
  split <;> rfl

/-- The file is written if everything before works. -/
theorem exec_rebuild (e : Rebuilding) (t : Site B) : (rebuild k e).exec t =
    (built k e t).elim (none, t) fun h =>
      (if e.writeFile = .ok ∧ e.enable = true ∧ e.restart = true then some () else none,
        if e.writeFile = .failed then t else { t with config := some h }) := by
  refine Proc.exec_bind_elim (exec_readInstance k e.read t) fun inst => ?_
  refine Proc.exec_bind_elim (Proc.exec_lift ..) fun strat => ?_
  refine Proc.exec_bind_elim (exec_listClients k e.list t) fun clients => ?_
  refine Proc.exec_bind_elim (Proc.exec_lift ..) fun inbound => ?_
  refine Proc.exec_bind_elim (Proc.exec_lift ..) fun relays => ?_
  refine Proc.exec_bind_elim (Proc.exec_lift ..) fun conf => ?_
  rw [Proc.exec_bind, Proc.exec_write]
  cases e.writeFile <;> cases e.enable <;> cases e.restart <;> rfl

variable {t' : Site B}

theorem exec_rebuild_eq_some_iff {e : Rebuilding} : (rebuild k e).exec t = (some (), t') ↔
    e.writeFile = .ok ∧ e.enable = true ∧ e.restart = true ∧
      ∃ h, built k e t = some h ∧ t' = { t with config := some h } := by
  rw [exec_rebuild]
  cases built k e t with
  | none => simp
  | some h =>
    by_cases works : e.writeFile = .ok ∧ e.enable = true ∧ e.restart = true
    · simp [works, eq_comm]
    · rw [if_neg works]
      refine iff_of_false (fun same => by cases same) ?_
      rintro ⟨write, enable, restart, _⟩
      exact works ⟨write, enable, restart⟩

/-- No blob stands for direct egress. -/
def sealedRelay (e : Persisting) (relays : List RelaySpec) : Option (Option B) :=
  if relays = [] then some none else e.sealRelay.map fun m => some (k.sealBlob m (k.writeChain relays))

/-- The row an instance is saved as. -/
def sealedRow (e : Persisting) (strategy : Text) (params : Params) (relays : List RelaySpec) :
    Option (InstanceRow B) := do
  let n ← e.sealParams
  let encRelay ← sealedRelay k e relays
  return ⟨strategy, k.sealBlob n (k.writeParams params), encRelay⟩

theorem exec_persistInstance (e : Persisting) (strategy : Text) (params : Params) (relays : List RelaySpec)
    (t : Site B) : (persistInstance k e strategy params relays).exec t =
      match sealedRow k e strategy params relays with
      | none => (none, t)
      | some row => (if e.saveInstance = .ok then some () else none,
          if e.saveInstance = .failed then t else { t with row := some row }) := by
  unfold persistInstance sealedRow sealedRelay
  rw [Proc.exec_lift_bind]
  cases e.sealParams with
  | none => rfl
  | some n =>
    by_cases direct : relays = []
    · simp only [if_pos direct]
      exact Proc.exec_write ..
    · simp only [if_neg direct]
      cases e.sealRelay with
      | none => rfl
      | some m => exact Proc.exec_write ..

theorem exec_saveClient (sealCred : Option Nat) (save : Outcome) (c : Client) (t : Site B) :
    (saveClient k sealCred save c).exec t =
      match sealCred with
      | none => (none, t)
      | some n => (if save = .ok then some () else none, if save = .failed then t
          else { t with clients := t.clients.upsert c.name (k.sealBlob n (k.writeClient c)) }) := by
  unfold saveClient
  rw [Proc.exec_lift_bind]
  cases sealCred with
  | none => rfl
  | some n => exact Proc.exec_write ..

/-- Whether a strategy for one client has room, as far as the clients can be listed. -/
def hasRoom (l : Listing) (strat : StrategyMethods) (t : Site B) : Bool :=
  strat.multiClient || ((clientsOf k l t).getD []).isEmpty

theorem exec_singleClient (l : Listing) (strat : StrategyMethods) (t : Site B) :
    (singleClient k l strat).exec t = (if hasRoom k l strat t then some () else none, t) := by
  unfold singleClient hasRoom
  cases strat.multiClient with
  | true => rfl
  | false =>
    rw [if_neg Bool.false_ne_true, Proc.exec_bind, Proc.exec_attempt, exec_listClients]
    rfl

/-- The client that is saved, and the nonce of its seal. -/
def addedClient (e : Adding) (name : Text) (t : Site B) : Option (Nat × Client) := do
  if Text.trimSpace name = [] then none
  let inst ← instanceOf k e.read t
  let strat ← get e.modules inst.strategy
  if !hasRoom k e.list strat t then none
  let random ← e.random
  let n ← e.sealCred
  return (n, newClient (Text.trimSpace name) strat.cred (strat.cred.new random))

def Site.withClient (t : Site B) (n : Nat) (c : Client) : Site B :=
  { t with clients := t.clients.upsert c.name (k.sealBlob n (k.writeClient c)) }

theorem exec_addClient (e : Adding) (name : Text) (t : Site B) : (addClient k e name).exec t =
    (addedClient k e name t).elim (none, t) fun added =>
      match e.saveClient with
      | .ok => (rebuild k e.rebuild).exec (t.withClient k added.1 added.2)
      | .failed => (none, t)
      | .lost => (none, t.withClient k added.1 added.2) := by
  unfold addClient addedClient
  by_cases blank : Text.trimSpace name = []
  · simp [blank, Proc.exec_guard_bind]
  rw [Proc.exec_guard_bind, if_pos (decide_eq_true blank), if_neg blank]
  refine Proc.exec_bind_elim (exec_readInstance k e.read t) fun inst => ?_
  refine Proc.exec_bind_elim (Proc.exec_lift ..) fun strat => ?_
  rw [Proc.exec_bind, exec_singleClient]
  cases hasRoom k e.list strat t with
  | false => rfl
  | true =>
    refine Proc.exec_bind_elim (Proc.exec_lift ..) fun random => ?_
    rw [Proc.exec_bind, exec_saveClient]
    cases e.sealCred with
    | none => rfl
    | some n => cases e.saveClient <;> rfl

def Site.without (t : Site B) (name : Text) : Site B := { t with clients := t.clients.delete name }

theorem exec_removeClient (e : Removing) (name : Text) (t : Site B) : (removeClient k e name).exec t =
    match e.deleteClient with
    | .ok => (rebuild k e.rebuild).exec (t.without name)
    | .failed => (none, t)
    | .lost => (none, t.without name) := by
  unfold removeClient
  rw [Proc.exec_bind]
  cases e.deleteClient <;> rfl

variable {name : Text}

theorem exec_removeClient_eq_some {e : Removing} (done : (removeClient k e name).exec t = (some (), t')) :
    (rebuild k e.rebuild).exec (t.without name) = (some (), t') := by
  rw [exec_removeClient] at done
  cases deleted : e.deleteClient with
  | ok => rwa [deleted] at done
  | failed | lost => rw [deleted] at done; cases done

theorem of_addedClient {e : Adding} {n : Nat} {c : Client} (added : addedClient k e name t = some (n, c)) :
    ∃ inst strat random, instanceOf k e.read t = some inst ∧ get e.modules inst.strategy = some strat ∧
      hasRoom k e.list strat t = true ∧ e.random = some random ∧
      c = newClient (Text.trimSpace name) strat.cred (strat.cred.new random) := by
  unfold addedClient at added
  split at added
  · cases added
  · obtain ⟨inst, read, added⟩ := Option.bind_eq_some_iff.mp added
    obtain ⟨strat, known, added⟩ := Option.bind_eq_some_iff.mp added
    split at added
    · cases added
    · rename_i room
      obtain ⟨random, drawn, added⟩ := Option.bind_eq_some_iff.mp added
      obtain ⟨m, _, added⟩ := Option.bind_eq_some_iff.mp added
      cases added
      exact ⟨inst, strat, random, read, known, by simpa using room, drawn, rfl⟩

theorem exec_addClient_eq_some {e : Adding} (done : (addClient k e name).exec t = (some (), t')) :
    ∃ n c, addedClient k e name t = some (n, c) ∧ (rebuild k e.rebuild).exec (t.withClient k n c) = (some (), t') := by
  rw [exec_addClient] at done
  cases added : addedClient k e name t with
  | none => rw [added] at done; cases done
  | some pair =>
    rw [added] at done
    cases save : e.saveClient with
    | ok => rw [save] at done; exact ⟨pair.1, pair.2, rfl, done⟩
    | failed | lost => rw [save] at done; cases done

/-- The stored instance that is taken over, if there is one of the strategy. -/
def current (r : Reading) (strategyName : Text) (t : Site B) : Option Instance :=
  (instanceOf k r t).filter (·.strategy = strategyName)

theorem exec_sameStrategy (r : Reading) (strategyName : Text) (t : Site B) :
    (sameStrategy k r strategyName).exec t = (some (current k r strategyName t), t) := by
  unfold sameStrategy
  rw [Proc.exec_bind, Proc.exec_attempt, exec_readInstance]
  rfl

/-- The parameters that are saved. -/
def finalParams (e : Applying) (strat : StrategyMethods) (cur : Option Instance) (params : Params) : Option Params :=
  ensureInstanceCrypto e.generate strat.instanceSecrets
    (cur.elim params fun cur => carrySecrets strat.instanceSecrets cur.params params)

/-- The row that is saved. -/
def appliedRow (e : Applying) (strategyName : Text) (params : Params) (relays : Option (List RelaySpec)) (t : Site B) :
    Option (InstanceRow B) := do
  let strat ← get e.modules strategyName
  let cur := current k e.read strategyName t
  let params ← finalParams e strat cur params
  sealedRow k e.persist strategyName params (relays.getD (cur.elim [] Instance.relays))

/-- What follows the save. -/
def afterSave (e : Applying) : Proc (Site B) Unit := do
  let clients ← listClients k e.list
  Proc.when clients.isEmpty (addClient k e.add "default".toList)
  rebuild k e.rebuild

theorem exec_apply (e : Applying) (strategyName : Text) (params : Params) (relays : Option (List RelaySpec))
    (t : Site B) : (apply k e strategyName params relays).exec t =
      (appliedRow k e strategyName params relays t).elim (none, t) fun row =>
        match e.persist.saveInstance with
        | .ok => (afterSave k e).exec { t with row := some row }
        | .failed => (none, t)
        | .lost => (none, { t with row := some row }) := by
  refine Proc.exec_bind_elim (Proc.exec_lift ..) fun strat => ?_
  rw [Proc.exec_bind, exec_sameStrategy]
  refine Proc.exec_bind_elim (Proc.exec_lift ..) fun final => ?_
  rw [Proc.exec_bind, exec_persistInstance]
  cases sealedRow k e.persist strategyName final
    (relays.getD ((current k e.read strategyName t).elim [] Instance.relays)) with
  | none => rfl
  | some row => cases e.persist.saveInstance <;> rfl

variable {params : Params}

theorem exec_apply_eq_some {e : Applying} {strategyName : Text} {relays : Option (List RelaySpec)}
    (done : (apply k e strategyName params relays).exec t = (some (), t')) :
    ∃ row, appliedRow k e strategyName params relays t = some row ∧
      (afterSave k e).exec { t with row := some row } = (some (), t') := by
  rw [exec_apply] at done
  cases saved : appliedRow k e strategyName params relays t with
  | none => rw [saved] at done; cases done
  | some row =>
    rw [saved] at done
    cases save : e.persist.saveInstance with
    | ok => rw [save] at done; exact ⟨row, rfl, done⟩
    | failed | lost => rw [save] at done; cases done

theorem of_appliedRow {e : Applying} {strategyName : Text} {relays : Option (List RelaySpec)} {row : InstanceRow B}
    (saved : appliedRow k e strategyName params relays t = some row) :
    ∃ strat params', get e.modules strategyName = some strat ∧
      finalParams e strat (current k e.read strategyName t) params = some params' ∧
      sealedRow k e.persist strategyName params'
        (relays.getD ((current k e.read strategyName t).elim [] Instance.relays)) = some row := by
  obtain ⟨strat, known, saved⟩ := Option.bind_eq_some_iff.mp saved
  obtain ⟨params', filled, saved⟩ := Option.bind_eq_some_iff.mp saved
  exact ⟨strat, params', known, filled, saved⟩

theorem strategy_of_sealedRow {e : Persisting} {strategy : Text} {relays : List RelaySpec} {row : InstanceRow B}
    (saved : sealedRow k e strategy params relays = some row) : row.strategy = strategy := by
  obtain ⟨n, _, saved⟩ := Option.bind_eq_some_iff.mp saved
  obtain ⟨encRelay, _, saved⟩ := Option.bind_eq_some_iff.mp saved
  cases saved
  rfl

inductive Plain
  | params (p : Params)
  | chain (relays : List RelaySpec)
  | single (hop : RelaySpec)
  | client (c : Client)
  deriving DecidableEq, Repr

/-- A seal that hides nothing. -/
def plain : Codecs Plain (Nat × Plain) where
  sealBlob n j := (n, j)
  openBlob b := some b.2
  writeParams := .params
  readParams
    | .params p => some p
    | _ => none
  writeChain := .chain
  readChain
    | .chain relays => some relays
    | _ => none
  readSingle
    | .single hop => some hop
    | _ => none
  writeClient := .client
  readClient
    | .client c => some c
    | _ => none
  nameLE a b := !b.lex a fun c d => decide (c.toNat < d.toNat)
  open_seal _ _ := rfl
  read_params p := ⟨p, rfl, fun _ => rfl⟩
  read_chain _ _ _ := rfl
  read_single _ _ _ := rfl
  read_client _ := rfl

end Protean.Xray
