import Protean.Store.PeerTables
import Protean.WgFamily.Lines
import Protean.WgFamily.Peers

namespace Protean.WgFamily

/-- One instance, with the rows that the panel keeps for its peers. -/
structure Panel where
  host : Host
  tables : Store.PeerTables := {}

def onHost {α : Type} (m : Proc Host α) : Proc Panel α := Proc.zoom Panel.host (fun h p => { p with host := h }) m

/-- A write to the tables. One that fails changes nothing. -/
def onTables (works : Bool) (f : Store.PeerTables → Store.PeerTables) : Proc Panel Unit := do
  Proc.guard works
  Proc.modify fun p => { p with tables := f p.tables }

structure Subnet where
  id : Int
  cidr : Text
  deriving DecidableEq, Repr

structure PeerCreateReq where
  name : Text
  clientAddress : Text
  keepalive : Int := 0
  expireDays : Int := 0
  subnetIDs : List Int := []
  ownPublicKey : Text := []
  clientCSR : Text := []
  category : Text := []
  deriving DecidableEq, Repr

/-- How it goes to keep the private key of a new peer. -/
structure SecretEnv where
  sealSecret : Text → Option Text := some
  saveSecret : Bool := true
  remove : Env := {}

/-- How the steps of a request go, and what they find. -/
structure CreateEnv where
  subnets : Option (List Subnet) := some []
  add : Env := {}
  drawn : Option (List UInt8 × List UInt8) := none
  secret : SecretEnv := {}
  now : Int := 0
  setExpiry : Bool := true
  setCategory : Bool := true

/-- The class of letters and numbers is the one of the regular expression. -/
def validPeerName (letterOrNumber : Char → Bool) (name : Text) : Bool :=
  1 ≤ name.length && name.length ≤ 64 && name.all fun c => letterOrNumber c || " ._@-".toList.contains c

def validWGPublicKey (s : Text) : Bool := (Base64.decodeStd s).map List.length = some 32

/-- The address of the client, then the subnets that are asked for. -/
def requestedIPs (clientAddress : Text) (subnetIDs : List Int) (subnets : List Subnet) : List Text :=
  Text.trimSpace clientAddress :: (subnets.filter fun sn => subnetIDs.contains sn.id).map Subnet.cidr

/-- `time.Duration(n) * 24 * time.Hour`, in 64 bits. -/
def days (n : Int) : Int := (n * (24 * 60 * 60 * 1000000000)).bmod (2 ^ 64)

/-- A key that cannot be stored is taken out of the instance again. -/
def storeSecret (env : SecretEnv) (priv pub : Text) : Proc Panel Unit := do
  let stored ← Proc.attempt do
    let blob ← Proc.lift (env.sealSecret priv)
    onTables env.saveSecret fun t => { t with secrets := t.secrets.upsert pub blob }
  match stored with
  | some _ => return
  | none =>
    let _ ← Proc.attempt (onHost (removePeer env.remove pub))
    Proc.lift none

section
variable (env : CreateEnv)

/-- Gives the key that the peer is recorded by. -/
def createPeer (ownKey csr : Text) (spec : PeerSpec) : Proc Panel Text :=
  if ownKey ≠ [] then do
    Proc.guard (validWGPublicKey ownKey)
    onHost (addConfiguredPeer env.add ownKey spec)
    return ownKey
  -- these providers sign no requests
  else if csr ≠ [] then Proc.lift none
  else do
    let (priv, pub) ← onHost (addPeer env.add env.drawn spec)
    storeSecret env.secret priv pub
    return pub

def apiCreatePeer (letterOrNumber : Char → Bool) (req : PeerCreateReq) : Proc Panel Text := do
  let name := Text.trimSpace req.name
  Proc.guard (validPeerName letterOrNumber name)
  let subnets ← Proc.lift env.subnets
  let spec : PeerSpec := ⟨name, requestedIPs req.clientAddress req.subnetIDs subnets, req.keepalive, []⟩
  let key ← createPeer env (Text.trimSpace req.ownPublicKey) (Text.trimSpace req.clientCSR) spec
  Proc.when (0 < req.expireDays) do
    let _ ← Proc.attempt (onTables env.setExpiry fun t =>
      { t with expiry := t.expiry.upsert key (env.now + days req.expireDays) })
  Proc.when (req.category = "site".toList ∨ req.category = "client".toList) do
    let _ ← Proc.attempt (onTables env.setCategory fun t => { t with category := t.category.upsert key req.category })
  return key

end

/-- The configuration has one peer more, at its end. -/
structure AddsPeer (before after : ConfFile) (name key : Text) (allowedIPs : List Text) (p : ConfPeer) : Prop where
  conf : after = before.addPeer p
  name : p.name = name
  key : getOpt p.opts "PublicKey".toList = some key
  allowedIPs : p.allowedIPs = allowedIPs

theorem mem_of_getOpt {opts : List KV} {key value : Text} (found : getOpt opts key = some value) :
    ∃ kv ∈ opts, kv.value = value := by
  obtain ⟨kv, first, rfl⟩ := Option.map_eq_some_iff.mp found
  exact ⟨kv, List.mem_of_find?_eq_some first, rfl⟩

section
variable {name key : Text}

theorem readName_of_validateName (valid : validateName name = true) (trimmed : Text.trimSpace name = name) :
    ReadName name ∧ '\r' ∉ name := by
  rw [validateName, Bool.and_eq_true, List.all_eq_true] at valid
  refine ⟨⟨trimmed, fun member => ?_⟩, fun member => ?_⟩
  · exact absurd (valid.2 _ member) (by decide)
  · exact absurd (valid.2 _ member) (by decide)

/-- A new block is read back, and the others with it, unless there are line
breaks in the key or in a name. -/
theorem addsPeer_render_iff (spec : PeerSpec) {content : Text} (named : validateName spec.name = true)
    (trimmed : Text.trimSpace spec.name = spec.name) (ips : validateAllowedIPs spec.allowedIPs = true)
    (extra : ∀ kv ∈ spec.extra, kv.Valid) (plain : Text.trimSpace key = key) :
    (∃ p, AddsPeer (parseConf content)
        (parseConf ((parseConf content).addPeer ⟨spec.name, peerOpts key spec⟩).render) spec.name key spec.allowedIPs p) ↔
      '\n' ∉ key ∧ ∀ p ∈ (parseConf content).peers, '\r' ∉ p.name := by
  obtain ⟨read, noBreak⟩ := readName_of_validateName named trimmed
  have clean := (cleanName_eq_self_iff read).mpr noBreak
  have valid : (parseConf content).Valid := parseConf_valid content
  have names : ∀ p ∈ (parseConf content).peers, ReadName p.name := (parser_valid content).peerNames
  have whole : '\n' ∉ key → parseConf ((parseConf content).addPeer ⟨spec.name, peerOpts key spec⟩).render =
      ⟨(parseConf content).interfaceOpts,
        ((parseConf content).mapNames cleanName).peers ++ [⟨spec.name, peerOpts key spec⟩]⟩ := by
    intro single
    have both : ((parseConf content).addPeer ⟨spec.name, peerOpts key spec⟩).Valid := by
      refine ⟨valid.interfaceOpts, fun p member => ?_⟩
      rcases List.mem_append.mp member with old | new
      · exact valid.peers p old
      · rw [List.mem_singleton.mp new]
        exact peerOpts_valid ⟨plain, single⟩ ips extra
    rw [parseConf_render both, ConfFile.mapNames, ConfFile.addPeer, List.map_append, List.map_singleton, clean]
    rfl
  constructor
  · rintro ⟨p, adds⟩
    have single : '\n' ∉ key := by
      have new : p ∈ (parseConf ((parseConf content).addPeer ⟨spec.name, peerOpts key spec⟩).render).peers := by
        rw [adds.conf]
        exact List.mem_append_right _ List.mem_cons_self
      obtain ⟨kv, member, rfl⟩ := mem_of_getOpt adds.key
      exact ((parseConf_valid _).peers p new kv member).value_plain
    have conf := adds.conf
    rw [whole single] at conf
    have peers := List.append_inj_left' (congrArg ConfFile.peers conf) rfl
    exact ⟨single, (map_cleanName_eq_iff names).mp peers⟩
  · rintro ⟨single, breaks⟩
    refine ⟨⟨spec.name, peerOpts key spec⟩, ?_, rfl, getOpt_publicKey key spec, allowedIPs_peerOpts spec.name ips⟩
    rw [whole single]
    exact congrArg (fun peers => ConfFile.mk _ (peers ++ _)) ((map_cleanName_eq_iff names).mpr breaks)

end

section
variable {env : CreateEnv} {p p' : Panel}

theorem plainValue_encodeStd (bytes : List UInt8) : PlainValue (Base64.encodeStd bytes) := by
  have solid : ∀ c ∈ Base64.encodeStd bytes, Text.isSpace c = false := by
    have all : ∀ c ∈ Base64.stdAlphabet, Text.isSpace c = false := by decide +kernel
    intro c member
    rcases Base64.mem_encodeStd member with digit | rfl
    · exact all c digit
    · rfl
  exact ⟨(Text.trimmed_of_no_space solid).trimSpace_eq, fun member => absurd (solid _ member) (by decide)⟩

/-- The writes that a request does not depend on leave the host alone. -/
theorem onTables_attempted {works c : Bool} {f : Store.PeerTables → Store.PeerTables} {u : Unit}
    (done : (Proc.when c (do let _ ← Proc.attempt (onTables works f))).exec p = (some u, p')) : p'.host = p.host := by
  have host := congrArg (fun r => r.2.host) done
  rw [← host]
  cases c <;> cases works <;> rfl

theorem onHost_done {α : Type} {m : Proc Host α} {a : α} (done : (onHost m).exec p = (some a, p')) :
    m.exec p.host = (some a, p'.host) := by
  obtain ⟨answer, rfl⟩ := Prod.mk.inj done
  exact Prod.ext answer rfl

/-- What is stored for a private key, if anything is. -/
def SecretEnv.stored (env : SecretEnv) (priv : Text) : Option Text :=
  if env.saveSecret then env.sealSecret priv else none

theorem exec_storeSecret (env : SecretEnv) (priv pub : Text) (p : Panel) :
    (storeSecret env priv pub).exec p =
      match env.stored priv with
      | some blob => (some (), { p with tables := { p.tables with secrets := p.tables.secrets.upsert pub blob } })
      | none => (none, { p with host := ((removePeer env.remove pub).exec p.host).2 }) := by
  unfold storeSecret SecretEnv.stored
  rw [Proc.exec_bind, Proc.exec_attempt, Proc.exec_lift_bind]
  cases env.sealSecret priv <;> cases env.saveSecret <;> rfl

theorem storeSecret_done {env : SecretEnv} {priv pub : Text} {u : Unit}
    (done : (storeSecret env priv pub).exec p = (some u, p')) : p'.host = p.host := by
  rw [exec_storeSecret] at done
  split at done
  · rw [← (Prod.mk.inj done).2]
  · cases done

/-- The key of a new peer is the one that was supplied, or a drawn one. -/
structure Recorded (ownKey key : Text) : Prop where
  trimmed : Text.trimSpace ownKey = ownKey → Text.trimSpace key = key
  breaks : '\n' ∈ key ↔ '\n' ∈ ownKey

theorem createPeer_done {ownKey csr key : Text} {spec : PeerSpec}
    (done : (createPeer env ownKey csr spec).exec p = (some key, p')) :
    Recorded ownKey key ∧ (∃ u, (addConfiguredPeer env.add key spec).exec p.host = (some u, p'.host)) := by
  unfold createPeer at done
  split at done
  · obtain ⟨_, t, valid, done⟩ := Proc.exec_bind_eq_some_iff.mp done
    obtain ⟨_, rfl⟩ := Proc.exec_guard_eq_some_iff.mp valid
    obtain ⟨u, t, added, done⟩ := Proc.exec_bind_eq_some_iff.mp done
    obtain ⟨same, rfl⟩ := Prod.mk.inj done
    obtain rfl := Option.some.inj same
    exact ⟨⟨id, Iff.rfl⟩, u, onHost_done added⟩
  · rename_i drawn
    obtain rfl := not_not.mp drawn
    split at done
    · cases done
    · obtain ⟨⟨priv, pub⟩, t, added, done⟩ := Proc.exec_bind_eq_some_iff.mp done
      obtain ⟨u, t', stored, done⟩ := Proc.exec_bind_eq_some_iff.mp done
      obtain ⟨same, rfl⟩ := Prod.mk.inj done
      obtain rfl := Option.some.inj same
      have added := onHost_done added
      rw [exec_addPeer] at added
      rw [storeSecret_done stored]
      split at added
      · cases added
      · rename_i keys generated
        obtain ⟨answer, host⟩ := Prod.mk.inj added
        obtain ⟨u, exec, rfl⟩ := Option.map_eq_some_iff.mp answer
        obtain ⟨bytes, _, same⟩ := Option.map_eq_some_iff.mp generated
        have plain : PlainValue pub := by
          rw [← (Prod.mk.inj same).2]
          exact plainValue_encodeStd _
        exact ⟨⟨fun _ => plain.trimmed, iff_of_false plain.single (by simp)⟩, u, Prod.ext exec host⟩

theorem apiCreatePeer_done {letterOrNumber : Char → Bool} {req : PeerCreateReq} {key : Text}
    (done : (apiCreatePeer env letterOrNumber req).exec p = (some key, p')) :
    ∃ subnets, env.subnets = some subnets ∧ Recorded (Text.trimSpace req.ownPublicKey) key ∧
      ∃ u, (addConfiguredPeer env.add key ⟨Text.trimSpace req.name,
        requestedIPs req.clientAddress req.subnetIDs subnets, req.keepalive, []⟩).exec p.host = (some u, p'.host) := by
  obtain ⟨_, t, valid, done⟩ := Proc.exec_bind_eq_some_iff.mp done
  obtain ⟨_, rfl⟩ := Proc.exec_guard_eq_some_iff.mp valid
  obtain ⟨subnets, t, catalog, done⟩ := Proc.exec_bind_eq_some_iff.mp done
  obtain ⟨listed, rfl⟩ := Proc.exec_lift_eq_some_iff.mp catalog
  obtain ⟨key', t, created, done⟩ := Proc.exec_bind_eq_some_iff.mp done
  obtain ⟨_, t₁, expiry, done⟩ := Proc.exec_bind_eq_some_iff.mp done
  obtain ⟨_, t₂, category, done⟩ := Proc.exec_bind_eq_some_iff.mp done
  obtain ⟨same, rfl⟩ := Prod.mk.inj done
  obtain rfl := Option.some.inj same
  obtain ⟨recorded, added⟩ := createPeer_done created
  rw [onTables_attempted category, onTables_attempted expiry]
  exact ⟨subnets, listed, recorded, added⟩

/-- A new peer is one peer more and nothing else, exactly if no line break is
in the supplied key or in the name of a peer before. -/
theorem peer_create_exact_iff {letterOrNumber : Char → Bool} {req : PeerCreateReq} {key : Text}
    (accepted : (apiCreatePeer env letterOrNumber req).exec p = (some key, p')) :
    (∃ peer, AddsPeer (parseConf p.host.file) (parseConf p'.host.file) (Text.trimSpace req.name) key
        (requestedIPs req.clientAddress req.subnetIDs (env.subnets.getD [])) peer) ↔
      '\n' ∉ Text.trimSpace req.ownPublicKey ∧ ∀ peer ∈ (parseConf p.host.file).peers, '\r' ∉ peer.name := by
  obtain ⟨subnets, listed, recorded, _, added⟩ := apiCreatePeer_done accepted
  obtain ⟨passed, host⟩ := addConfiguredPeer_done _ added
  simp only [admitted, Bool.and_eq_true] at passed
  have trimmed : ∀ t, Text.trimSpace (Text.trimSpace t) = Text.trimSpace t := fun t =>
    (Text.trimmed_trimSpace t).trimSpace_eq
  rw [host, listed, Option.getD_some, ← recorded.breaks]
  exact addsPeer_render_iff ⟨_, _, req.keepalive, []⟩ passed.1.1.1 (trimmed _) passed.1.1.2 (by simp)
    (recorded.trimmed (trimmed _))

end

def panelWith (file : Text) : Panel := ⟨⟨file, "c2VydmVy".toList, 51820, KeyTable.empty⟩, {}⟩

/-- A key of 32 zero bytes. -/
def zeroKey : Text := List.replicate 43 'A' ++ ['=']

def createSample (file ownKey : Text) : Option Text × Panel :=
  (apiCreatePeer {} Char.isAlphanum { name := "b".toList, clientAddress := "10.0.0.2/32".toList, ownPublicKey := ownKey
    }).exec (panelWith file)

theorem peer_create_exact_iff_sample :
    ∃ peer, AddsPeer (parseConf "[Peer]\nPublicKey = a2V5\n".toList)
      (parseConf (createSample "[Peer]\nPublicKey = a2V5\n".toList zeroKey).2.host.file) "b".toList zeroKey
      ["10.0.0.2/32".toList] peer := by
  have accepted : (createSample "[Peer]\nPublicKey = a2V5\n".toList zeroKey).1 = some zeroKey := by decide +kernel
  exact (peer_create_exact_iff (Prod.ext accepted rfl)).mpr ⟨by decide +kernel, by decide +kernel⟩

/-- The decoder passes over a line feed in a key, and its rest is lost from the
file; a carriage return in the name of another peer becomes a space. -/
theorem peer_create_changes_file :
    ((createSample [] ('A' :: '\n' :: zeroKey.tail)).1 = some ('A' :: '\n' :: zeroKey.tail) ∧
      ¬ ∃ peer, AddsPeer (parseConf []) (parseConf (createSample [] ('A' :: '\n' :: zeroKey.tail)).2.host.file) "b".toList
        ('A' :: '\n' :: zeroKey.tail) ["10.0.0.2/32".toList] peer) ∧
    ((createSample "# Name: a\rb\n[Peer]\n".toList zeroKey).1 = some zeroKey ∧
      ¬ ∃ peer, AddsPeer (parseConf "# Name: a\rb\n[Peer]\n".toList)
        (parseConf (createSample "# Name: a\rb\n[Peer]\n".toList zeroKey).2.host.file) "b".toList zeroKey
        ["10.0.0.2/32".toList] peer) := by
  refine ⟨⟨by decide +kernel, ?_⟩, by decide +kernel, ?_⟩
  · rintro ⟨peer, adds⟩
    have key : ((parseConf (createSample [] ('A' :: '\n' :: zeroKey.tail)).2.host.file).peers.getLast?.bind fun peer =>
        getOpt peer.opts "PublicKey".toList) = some ['A'] := by decide +kernel
    rw [adds.conf, ConfFile.addPeer, List.getLast?_append_of_ne_nil _ (by simp)] at key
    exact absurd (adds.key.symm.trans key) (by decide)
  · rintro ⟨peer, adds⟩
    have name : ((parseConf (createSample "# Name: a\rb\n[Peer]\n".toList zeroKey).2.host.file).peers.head?.map
        ConfPeer.name) = some "a b".toList := by decide +kernel
    have before : (parseConf "# Name: a\rb\n[Peer]\n".toList).peers.map ConfPeer.name = ["a\rb".toList] := by
      decide +kernel
    have names := congrArg (fun conf => conf.peers.map ConfPeer.name) adds.conf
    dsimp only [ConfFile.addPeer] at names
    rw [List.map_append, before] at names
    rw [← List.head?_map, names] at name
    have same : some "a\rb".toList = some "a b".toList := name
    exact absurd same (by decide +kernel)

end Protean.WgFamily
