import Protean.WgFamily.Create
import Protean.WgFamily.ServerConfig

namespace Protean.WgFamily

structure Params where
  clientPrivateKey : Text
  clientAddress : Text
  dns : Text
  mtu : Int
  serverPublicKey : Text
  endpoint : Text
  allowedIPs : List Text
  persistentKeepalive : Int
  extra : List KV := []
  deriving DecidableEq, Repr

def Params.interfaceOpts (p : Params) : List KV :=
  [⟨"PrivateKey".toList, p.clientPrivateKey⟩, ⟨"Address".toList, p.clientAddress⟩] ++
    (if p.dns ≠ [] then [⟨"DNS".toList, p.dns⟩] else []) ++
    (if 0 < p.mtu then [⟨"MTU".toList, Text.itoa p.mtu⟩] else []) ++ p.extra

def Params.peerOpts (p : Params) : List KV :=
  [⟨"PublicKey".toList, p.serverPublicKey⟩, ⟨"Endpoint".toList, p.endpoint⟩,
    ⟨"AllowedIPs".toList, [',', ' '].intercalate p.allowedIPs⟩] ++
    if 0 < p.persistentKeepalive then [⟨"PersistentKeepalive".toList, Text.itoa p.persistentKeepalive⟩] else []

def build (p : Params) : Text :=
  interfaceHeader ++ '\n' :: (p.interfaceOpts.flatMap renderKV ++
    '\n' :: (peerHeader ++ '\n' :: p.peerOpts.flatMap renderKV))

/-- The first entry for a single host. -/
def peerOwnAddress (allowedIPs : List Text) : Text :=
  (allowedIPs.find? fun a => ((Inet.parseCIDR a).map fun r => r.2.isHost).getD false).getD []

def firstCIDR (address : Text) : Text := Text.trimSpace (address.takeWhile (· ≠ ','))

def tunnelNetwork (address : Text) : Option Text := (Inet.parseCIDR (firstCIDR address)).map fun r => r.2.toText

/-- From the status as it was read, if it could be. -/
def providerTunnelCIDR (st : Option ServerStatus) : Option Text :=
  st.bind fun st => if st.up ∧ st.address ≠ [] then tunnelNetwork st.address else none

structure ProviderSettings where
  meshEnabled : Bool := false
  internetEgress : Bool := false
  deriving DecidableEq, Repr

/-- Another instance on the same server, as far as it can be read. -/
structure MeshInstance where
  settings : Option ProviderSettings
  status : Option ServerStatus
  deriving DecidableEq, Repr

structure MeshEnv where
  settings : Option ProviderSettings := some {}
  own : Option ServerStatus := none
  others : List MeshInstance := []
  subnets : Option (List Subnet) := some []

def meshTunnelCIDRsExcept (others : List MeshInstance) : List Text :=
  others.filterMap fun i =>
    if (i.settings.map ProviderSettings.meshEnabled).getD false then providerTunnelCIDR i.status else none

/-- A network is added in its normal form, unless it is the peer's own or there already. -/
def addRoute (own routes : List Text) (cidr : Text) : List Text :=
  match Inet.parseCIDR cidr with
  | none => routes
  | some (_, ipnet) => if ipnet.toText ∈ own ∨ ipnet.toText ∈ routes then routes else routes ++ [ipnet.toText]

def computeRoutes (allowedIPs tunnelCIDRs subnetCIDRs : List Text) (egress : Bool) : List Text :=
  let own := allowedIPs.filterMap fun a => (Inet.parseCIDR a).map fun r => r.2.toText
  (tunnelCIDRs ++ subnetCIDRs ++ if egress then ["0.0.0.0/0".toList] else []).foldl (addRoute own) []

def routesForPeer (env : MeshEnv) (allowedIPs : List Text) : Option (List Text) := do
  let settings ← env.settings
  let tunnels := (providerTunnelCIDR env.own).toList ++
    if settings.meshEnabled then meshTunnelCIDRsExcept env.others else []
  let subnets ← env.subnets
  return computeRoutes allowedIPs tunnels (subnets.map Subnet.cidr) settings.internetEgress

structure ClientEnv where
  status : Env := {}
  list : Env := {}
  getSecret : Bool := true
  openSecret : Text → Option Text := some
  mesh : MeshEnv := {}

def storedKey (env : ClientEnv) (pubkey : Text) (p : Panel) : Option Text :=
  (if env.getSecret then p.tables.secrets.get pubkey else none).bind env.openSecret

def buildClientConfigText (env : ClientEnv) (publicHost pubkey : Text) : Proc Panel Text := do
  let st ← onHost (status env.status publicHost)
  let target ← onHost (findListed env.list pubkey)
  let priv ← Proc.read (storedKey env pubkey)
  let routes ← Proc.lift (routesForPeer env.mesh target.allowedIPs)
  return build {
    clientPrivateKey := priv
    clientAddress := peerOwnAddress target.allowedIPs
    dns := st.dns
    mtu := st.mtu
    serverPublicKey := st.publicKey
    endpoint := st.endpoint
    allowedIPs := routes
    persistentKeepalive := target.keepalive }

def ConfFile.dns (conf : ConfFile) : Text := (conf.interfaceGet "DNS".toList).getD []

def ConfFile.mtu (conf : ConfFile) : Int := ((conf.interfaceGet "MTU".toList).map Text.atoiValue).getD 0

def serverEndpoint (publicHost : Text) (h : Host) : Text :=
  if publicHost ≠ [] then publicHost ++ ':' :: Text.itoa h.listenPort else []

/-- What a client needs to know to reach the server. -/
structure ClientMatches (kind : Kind) (h : Host) (publicHost priv address : Text) (routes : List Text)
    (client : ConfFile) :
    Prop where
  obfuscation : kind = .amneziawg → ∀ k ∈ obfuscationKeys, ∀ v, (parseConf h.file).interfaceGet k = some v →
    client.interfaceGet k = some v
  privateKey : client.interfaceGet "PrivateKey".toList = some priv
  address : client.interfaceGet "Address".toList = some address
  dns : client.dns = (parseConf h.file).dns
  mtu : client.mtu = (parseConf h.file).mtu
  peer : ∃ peer, client.peers = [peer] ∧ getOpt peer.opts "PublicKey".toList = some h.publicKey ∧
    getOpt peer.opts "Endpoint".toList = some (serverEndpoint publicHost h) ∧ peer.allowedIPs = routes

/-- The server has no setting that a client config leaves out, its status is
read in full, and the texts are such as a line can hold. -/
structure Faithful (kind : Kind) (env : Env) (h : Host) (publicHost priv : Text) : Prop where
  obfuscation : kind = .amneziawg → ∀ k ∈ obfuscationKeys, (parseConf h.file).interfaceGet k = none
  status : env.dump = .up ∨ h.publicKey = [] ∧ serverEndpoint publicHost h = []
  settings : env.dump = .up ∧ env.readStatus = true ∨ (parseConf h.file).dns = [] ∧ (parseConf h.file).mtu = 0
  mtu : 0 ≤ (parseConf h.file).mtu
  privateKey : PlainValue priv
  publicKey : PlainValue h.publicKey
  endpoint : PlainValue (serverEndpoint publicHost h)

section
variable {p : Params}

theorem build_eq_render (p : Params) : build p = ConfFile.render ⟨p.interfaceOpts, [⟨[], p.peerOpts⟩]⟩ := by
  simp [build, ConfFile.render, renderPeer]

/-- The values that a client config is made of. -/
structure Params.Plain (p : Params) : Prop where
  clientPrivateKey : PlainValue p.clientPrivateKey
  clientAddress : PlainValue p.clientAddress
  dns : PlainValue p.dns
  serverPublicKey : PlainValue p.serverPublicKey
  endpoint : PlainValue p.endpoint
  allowedIPs : PlainParts p.allowedIPs
  extra : p.extra = []

def interfaceKeys : List Text := ["PrivateKey".toList, "Address".toList, "DNS".toList, "MTU".toList]

def serverKeys : List Text :=
  ["PublicKey".toList, "Endpoint".toList, "AllowedIPs".toList, "PersistentKeepalive".toList]

theorem clientKeys_valid {k : Text} (member : k ∈ interfaceKeys ++ serverKeys) (value : Text) :
    KV.KeyValid ⟨k, value⟩ := KV.keyValid_of_mem (by decide +kernel) member value

theorem interfaceOpts_keys (noExtra : p.extra = []) : (p.interfaceOpts.map KV.key).Sublist interfaceKeys := by
  rw [Params.interfaceOpts, noExtra, List.append_nil, List.map_append, List.map_append]
  exact ((List.Sublist.refl _).append (map_key_ite _ _)).append (map_key_ite _ _)

theorem peerOpts_keys (p : Params) : (p.peerOpts.map KV.key).Sublist serverKeys := by
  rw [Params.peerOpts, List.map_append]
  exact (List.Sublist.refl _).append (map_key_ite _ _)

theorem interfaceOpts_distinct (noExtra : p.extra = []) : Distinct p.interfaceOpts :=
  distinct_of_keys (interfaceOpts_keys noExtra) (by decide +kernel)

theorem peerOpts_distinct (p : Params) : Distinct p.peerOpts := distinct_of_keys (peerOpts_keys p) (by decide +kernel)

/-- What is in the options, value by value. -/
theorem interfaceOpts_plain (plain : p.Plain) : ∀ kv ∈ p.interfaceOpts, PlainValue kv.value := by
  intro kv member
  rw [Params.interfaceOpts, plain.extra, List.append_nil, List.mem_append, List.mem_append] at member
  rcases member with (own | dns) | mtu
  · rcases List.mem_cons.mp own with rfl | own
    · exact plain.clientPrivateKey
    · rw [List.mem_singleton.mp own]
      exact plain.clientAddress
  · split at dns
    · rw [List.mem_singleton.mp dns]
      exact plain.dns
    · cases dns
  · split at mtu
    · rw [List.mem_singleton.mp mtu]
      exact plainValue_itoa _
    · cases mtu

theorem peerOpts_plain (plain : p.Plain) : ∀ kv ∈ p.peerOpts, PlainValue kv.value := by
  intro kv member
  rw [Params.peerOpts, List.mem_append] at member
  rcases member with own | keepalive
  · simp only [List.mem_cons, List.not_mem_nil, or_false] at own
    rcases own with rfl | rfl | rfl
    · exact plain.serverPublicKey
    · exact plain.endpoint
    · exact plain.allowedIPs.plainValue
  · split at keepalive
    · rw [List.mem_singleton.mp keepalive]
      exact plainValue_itoa _
    · cases keepalive

/-- A client config is read back as it was built. -/
theorem parseConf_build (plain : p.Plain) : parseConf (build p) = ⟨p.interfaceOpts, [⟨[], p.peerOpts⟩]⟩ := by
  have valid : (⟨p.interfaceOpts, [⟨[], p.peerOpts⟩]⟩ : ConfFile).Valid := by
    refine ⟨fun kv member => ?_, fun peer one kv member => ?_⟩
    · have known := (interfaceOpts_keys plain.extra).subset (List.mem_map_of_mem member)
      exact .of_plain (clientKeys_valid (List.mem_append_left _ known) _) (interfaceOpts_plain plain kv member)
    · rw [List.mem_singleton.mp one] at member
      have known := (peerOpts_keys p).subset (List.mem_map_of_mem member)
      exact .of_plain (clientKeys_valid (List.mem_append_right _ known) _) (peerOpts_plain plain kv member)
  rw [build_eq_render, parseConf_render valid]
  rfl

theorem getOpt_dns (noExtra : p.extra = []) : (getOpt p.interfaceOpts "DNS".toList).getD [] = p.dns := by
  by_cases empty : p.dns = []
  · have keys : (p.interfaceOpts.map KV.key).Sublist ["PrivateKey".toList, "Address".toList, "MTU".toList] := by
      rw [Params.interfaceOpts, noExtra, List.append_nil, if_neg (not_not.mpr empty), List.append_nil, List.map_append]
      exact (List.Sublist.refl _).append (map_key_ite _ _)
    rw [getOpt_eq_none_of_keys keys (by decide +kernel), empty]
    rfl
  · have member : (⟨"DNS".toList, p.dns⟩ : KV) ∈ p.interfaceOpts := by
      rw [Params.interfaceOpts, if_pos empty]
      exact List.mem_append_left _ (List.mem_append_left _ (List.mem_append_right _ List.mem_cons_self))
    rw [show getOpt p.interfaceOpts "DNS".toList = _ from getOpt_of_mem (interfaceOpts_distinct noExtra) member]
    rfl

theorem getOpt_mtu (noExtra : p.extra = []) (high : p.mtu ≤ 2 ^ 63 - 1) :
    ((getOpt p.interfaceOpts "MTU".toList).map Text.atoiValue).getD 0 = max p.mtu 0 := by
  by_cases positive : 0 < p.mtu
  · have member : (⟨"MTU".toList, Text.itoa p.mtu⟩ : KV) ∈ p.interfaceOpts := by
      rw [Params.interfaceOpts, if_pos positive]
      exact List.mem_append_left _ (List.mem_append_right _ List.mem_cons_self)
    rw [show getOpt p.interfaceOpts "MTU".toList = _ from getOpt_of_mem (interfaceOpts_distinct noExtra) member]
    dsimp only [Option.map_some, Option.getD_some]
    rw [Text.atoiValue_itoa (by omega) high]
    omega
  · have keys : (p.interfaceOpts.map KV.key).Sublist ["PrivateKey".toList, "Address".toList, "DNS".toList] := by
      rw [Params.interfaceOpts, noExtra, List.append_nil, if_neg positive, List.append_nil, List.map_append]
      exact (List.Sublist.refl _).append (map_key_ite _ _)
    rw [getOpt_eq_none_of_keys keys (by decide +kernel)]
    dsimp only [Option.map_none, Option.getD_none]
    omega

theorem getOpt_obfuscationKeys (plain : p.Plain) {k : Text} (member : k ∈ obfuscationKeys) :
    getOpt p.interfaceOpts k = none := by
  have apart : ∀ k ∈ obfuscationKeys, ∀ k' ∈ interfaceKeys, equalFold k' k = false := by decide +kernel
  exact getOpt_eq_none_of_keys (interfaceOpts_keys plain.extra) (apart k member)

theorem getOpt_serverKeys (p : Params) :
    getOpt p.peerOpts "PublicKey".toList = some p.serverPublicKey ∧
      getOpt p.peerOpts "Endpoint".toList = some p.endpoint ∧
      getOpt p.peerOpts "AllowedIPs".toList = some ([',', ' '].intercalate p.allowedIPs) := by
  have member : ∀ kv ∈ [(⟨"PublicKey".toList, p.serverPublicKey⟩ : KV), ⟨"Endpoint".toList, p.endpoint⟩,
      ⟨"AllowedIPs".toList, [',', ' '].intercalate p.allowedIPs⟩], getOpt p.peerOpts kv.key = some kv.value :=
    fun kv listed => getOpt_of_mem (peerOpts_distinct p) (List.mem_append_left _ listed)
  simpa only [List.forall_mem_cons, List.not_mem_nil, false_implies, implies_true, and_true] using member

theorem getOpt_clientKeys (plain : p.Plain) :
    getOpt p.interfaceOpts "PrivateKey".toList = some p.clientPrivateKey ∧
      getOpt p.interfaceOpts "Address".toList = some p.clientAddress := by
  have member : ∀ kv ∈ [(⟨"PrivateKey".toList, p.clientPrivateKey⟩ : KV), ⟨"Address".toList, p.clientAddress⟩],
      getOpt p.interfaceOpts kv.key = some kv.value := by
    intro kv listed
    refine getOpt_of_mem (interfaceOpts_distinct plain.extra) ?_
    rw [Params.interfaceOpts]
    exact List.mem_append_left _ (List.mem_append_left _ (List.mem_append_left _ listed))
  rwa [List.forall_mem_cons, List.forall_mem_singleton] at member

/-- What a client config tells, in terms of what it was built from. -/
theorem clientMatches_build_iff {kind : Kind} {h : Host} {publicHost priv address : Text} {routes : List Text}
    (plain : p.Plain) (high : p.mtu ≤ 2 ^ 63 - 1) (own : p.clientPrivateKey = priv ∧ p.clientAddress = address)
    (routed : p.allowedIPs = routes) :
    ClientMatches kind h publicHost priv address routes (parseConf (build p)) ↔
      (kind = .amneziawg → ∀ k ∈ obfuscationKeys, (parseConf h.file).interfaceGet k = none) ∧
        p.dns = (parseConf h.file).dns ∧ max p.mtu 0 = (parseConf h.file).mtu ∧ p.serverPublicKey = h.publicKey ∧
        p.endpoint = serverEndpoint publicHost h := by
  have server := getOpt_serverKeys p
  have client := getOpt_clientKeys plain
  rw [parseConf_build plain]
  constructor
  · intro read
    obtain ⟨peer, one, key, endpoint, _⟩ := read.peer
    rw [List.cons.injEq] at one
    obtain rfl := one.1
    refine ⟨fun amnezia k member => ?_, (getOpt_dns plain.extra).symm.trans read.dns,
      (getOpt_mtu plain.extra high).symm.trans read.mtu, Option.some.inj (server.1.symm.trans key),
      Option.some.inj (server.2.1.symm.trans endpoint)⟩
    cases value : (parseConf h.file).interfaceGet k with
    | none => rfl
    | some v => cases (getOpt_obfuscationKeys plain member).symm.trans (read.obfuscation amnezia k member v value)
  · rintro ⟨none, dns, mtu, key, endpoint⟩
    refine ⟨fun amnezia k member v value => ?_, ?_, ?_, (getOpt_dns plain.extra).trans dns,
      (getOpt_mtu plain.extra high).trans mtu, ⟨[], p.peerOpts⟩, rfl, ?_, ?_, ?_⟩
    · cases (none amnezia k member).symm.trans value
    · rw [← own.1]
      exact client.1
    · rw [← own.2]
      exact client.2
    · rw [← key]
      exact server.1
    · rw [← endpoint]
      exact server.2.1
    · rw [← routed]
      exact plain.allowedIPs.allowedIPs server.2.2

end

section
variable {content key value : Text}

theorem plainValue_of_interfaceGet (found : (parseConf content).interfaceGet key = some value) : PlainValue value := by
  obtain ⟨kv, member, rfl⟩ := mem_of_getOpt found
  have valid := (parseConf_valid content).interfaceOpts kv member
  exact ⟨valid.value_trimmed, valid.value_plain⟩

theorem plainValue_of_peerGet {peer : ConfPeer} (member : peer ∈ (parseConf content).peers)
    (found : getOpt peer.opts key = some value) : PlainValue value := by
  obtain ⟨kv, listed, rfl⟩ := mem_of_getOpt found
  have valid := (parseConf_valid content).peers peer member kv listed
  exact ⟨valid.value_trimmed, valid.value_plain⟩

theorem plainValue_of_textChar {t : Text} (all : ∀ c ∈ t, Inet.textChar c = true) : PlainValue t := by
  have solid : ∀ c ∈ t, Text.isSpace c = false := fun c member => (Inet.textChar_plain (all c member)).1
  exact ⟨(Text.trimmed_of_no_space solid).trimSpace_eq, fun member => absurd (solid _ member) (by decide)⟩

theorem plainValue_peerOwnAddress (allowedIPs : List Text) : PlainValue (peerOwnAddress allowedIPs) := by
  unfold peerOwnAddress
  cases found : allowedIPs.find? fun a => ((Inet.parseCIDR a).map fun r => r.2.isHost).getD false with
  | none => exact plainValue_nil
  | some a =>
    have host := List.find?_some found
    cases parsed : Inet.parseCIDR a with
    | none => simp [parsed] at host
    | some r => exact plainValue_of_textChar (Inet.textChar_parseCIDR parsed)

/-- Every route is a network in its normal form. -/
theorem computeRoutes_plain (allowedIPs tunnelCIDRs subnetCIDRs : List Text) (egress : Bool) :
    PlainParts (computeRoutes allowedIPs tunnelCIDRs subnetCIDRs egress) := by
  have folded : ∀ (own cidrs routes : List Text), PlainParts routes → PlainParts (cidrs.foldl (addRoute own) routes) := by
    intro own cidrs
    induction cidrs with
    | nil => exact fun _ plain => plain
    | cons cidr cidrs ih =>
      intro routes plain
      refine ih _ ?_
      unfold addRoute
      split
      · exact plain
      · rename_i ipnet _
        split
        · exact plain
        · intro part member
          rcases List.mem_append.mp member with old | new
          · exact plain part old
          · rw [List.mem_singleton.mp new]
            exact ⟨ipnet.toText_ne_nil, fun c inside => Inet.textChar_plain (ipnet.textChar_toText c inside)⟩
  exact folded _ _ [] fun _ member => by cases member

theorem routesForPeer_plain {env : MeshEnv} {allowedIPs routes : List Text}
    (routed : routesForPeer env allowedIPs = some routes) : PlainParts routes := by
  obtain ⟨settings, _, routed⟩ := Option.bind_eq_some_iff.mp routed
  obtain ⟨subnets, _, routed⟩ := Option.bind_eq_some_iff.mp routed
  rw [← Option.some.inj routed]
  exact computeRoutes_plain _ _ _ _

theorem ConfFile.mtu_le (conf : ConfFile) : conf.mtu ≤ 2 ^ 63 - 1 := by
  unfold ConfFile.mtu
  cases conf.interfaceGet "MTU".toList with
  | none => decide
  | some v => exact (Text.atoiValue_bounds v).2

theorem dns_plain (content : Text) : PlainValue (parseConf content).dns := by
  unfold ConfFile.dns
  cases found : (parseConf content).interfaceGet "DNS".toList with
  | none => exact plainValue_nil
  | some v => exact plainValue_of_interfaceGet found

end

section
variable {kind : Kind} {env : ClientEnv} {publicHost pubkey priv text : Text} {target : ListedPeer} {routes : List Text}
  {p p' : Panel}

/-- The values that are put into a client config. -/
def clientParams (st : ServerStatus) (priv : Text) (target : ListedPeer) (routes : List Text) : Params where
  clientPrivateKey := priv
  clientAddress := peerOwnAddress target.allowedIPs
  dns := st.dns
  mtu := st.mtu
  serverPublicKey := st.publicKey
  endpoint := st.endpoint
  allowedIPs := routes
  persistentKeepalive := target.keepalive

theorem buildClientConfigText_done (secret : storedKey env pubkey p = some priv)
    (listed : ((findListed env.list pubkey).exec p.host).1 = some target)
    (routed : routesForPeer env.mesh target.allowedIPs = some routes)
    (built : (buildClientConfigText env publicHost pubkey).exec p = (some text, p')) :
    ∃ st, ((status env.status publicHost).exec p.host).1 = some st ∧
      text = build (clientParams st priv target routes) := by
  unfold buildClientConfigText at built
  obtain ⟨st, t, first, built⟩ := Proc.exec_bind_eq_some_iff.mp built
  obtain ⟨read, rfl⟩ := Prod.mk.inj first
  rw [exec_status] at built
  obtain ⟨target', t, second, built⟩ := Proc.exec_bind_eq_some_iff.mp built
  obtain ⟨found, rfl⟩ := Prod.mk.inj second
  obtain rfl : target' = target := Option.some.inj (found.symm.trans listed)
  rw [exec_findListed] at built
  obtain ⟨priv', t, third, built⟩ := Proc.exec_bind_eq_some_iff.mp built
  obtain ⟨opened, rfl⟩ := Prod.mk.inj third
  obtain rfl : priv' = priv := Option.some.inj (opened.symm.trans secret)
  rw [routed] at built
  exact ⟨st, read, (Option.some.inj (Prod.mk.inj built).1).symm⟩

/-- What is read back from a client config are values that a line can hold. -/
theorem ClientMatches.texts_plain {h : Host} {address content : Text}
    (client : ClientMatches kind h publicHost priv address routes (parseConf content)) :
    PlainValue priv ∧ PlainValue h.publicKey ∧ PlainValue (serverEndpoint publicHost h) := by
  obtain ⟨peer, one, key, endpoint, _⟩ := client.peer
  have member : peer ∈ (parseConf content).peers := one ▸ List.mem_singleton_self peer
  exact ⟨plainValue_of_interfaceGet client.privateKey, plainValue_of_peerGet member key,
    plainValue_of_peerGet member endpoint⟩

/-- What a status has of the server: all of it, what the interface tells, or nothing. -/
theorem status_cases {h : Host} {e : Env} {st : ServerStatus} (read : ((status e publicHost).exec h).1 = some st) :
    (e.dump = .up ∧ e.readStatus = true ∧ st.dns = (parseConf h.file).dns ∧ st.mtu = (parseConf h.file).mtu ∧
        st.publicKey = h.publicKey ∧ st.endpoint = serverEndpoint publicHost h) ∨
      (e.dump = .up ∧ e.readStatus = false ∧ st.dns = [] ∧ st.mtu = 0 ∧
        st.publicKey = h.publicKey ∧ st.endpoint = serverEndpoint publicHost h) ∨
      (e.dump = .down ∧ st.dns = [] ∧ st.mtu = 0 ∧ st.publicKey = [] ∧ st.endpoint = []) := by
  rw [exec_status] at read
  cases dump : e.dump with
  | error =>
    rw [dump] at read
    cases read
  | down =>
    rw [dump] at read
    obtain rfl := Option.some.inj read
    exact .inr (.inr ⟨rfl, rfl, rfl, rfl, rfl⟩)
  | up =>
    rw [dump] at read
    cases whole : e.readStatus with
    | true =>
      rw [whole] at read
      obtain rfl := Option.some.inj read
      exact .inl ⟨rfl, rfl, rfl, rfl, rfl, rfl⟩
    | false =>
      rw [whole] at read
      obtain rfl := Option.some.inj read
      exact .inr (.inl ⟨rfl, rfl, rfl, rfl, rfl, rfl⟩)

theorem faithful_iff {h : Host} {e : Env} {st : ServerStatus} (read : ((status e publicHost).exec h).1 = some st)
    (texts : PlainValue priv ∧ PlainValue h.publicKey ∧ PlainValue (serverEndpoint publicHost h)) :
    Faithful kind e h publicHost priv ↔
      (kind = .amneziawg → ∀ k ∈ obfuscationKeys, (parseConf h.file).interfaceGet k = none) ∧
        st.dns = (parseConf h.file).dns ∧ max st.mtu 0 = (parseConf h.file).mtu ∧ st.publicKey = h.publicKey ∧
        st.endpoint = serverEndpoint publicHost h := by
  rcases status_cases read with ⟨up, whole, dns, mtu, key, endpoint⟩ | ⟨up, unread, dns, mtu, key, endpoint⟩ |
    ⟨down, dns, mtu, key, endpoint⟩
  · rw [dns, mtu, key, endpoint]
    constructor
    · intro faithful
      exact ⟨faithful.obfuscation, rfl, max_eq_left faithful.mtu, rfl, rfl⟩
    · rintro ⟨hidden, _, positive, _, _⟩
      exact ⟨hidden, .inl up, .inl ⟨up, whole⟩, by omega, texts.1, texts.2.1, texts.2.2⟩
  · rw [dns, mtu, key, endpoint]
    constructor
    · intro faithful
      rcases faithful.settings with ⟨_, whole⟩ | ⟨noDNS, noMTU⟩
      · cases unread.symm.trans whole
      · exact ⟨faithful.obfuscation, noDNS.symm, noMTU.symm, rfl, rfl⟩
    · rintro ⟨hidden, noDNS, noMTU, _, _⟩
      exact ⟨hidden, .inl up, .inr ⟨noDNS.symm, by omega⟩, by omega, texts.1, texts.2.1, texts.2.2⟩
  · rw [dns, mtu, key, endpoint]
    constructor
    · intro faithful
      rcases faithful.settings with ⟨up, _⟩ | ⟨noDNS, noMTU⟩
      · cases down.symm.trans up
      · rcases faithful.status with up | ⟨noKey, noEndpoint⟩
        · cases down.symm.trans up
        · exact ⟨faithful.obfuscation, noDNS.symm, noMTU.symm, noKey.symm, noEndpoint.symm⟩
    · rintro ⟨hidden, noDNS, noMTU, noKey, noEndpoint⟩
      exact ⟨hidden, .inr ⟨noKey.symm, noEndpoint.symm⟩, .inr ⟨noDNS.symm, by omega⟩, by omega, texts.1, texts.2.1,
        texts.2.2⟩

theorem clientParams_plain {h : Host} {e : Env} {st : ServerStatus} (read : ((status e publicHost).exec h).1 = some st)
    (routed : routesForPeer env.mesh target.allowedIPs = some routes)
    (texts : PlainValue priv ∧ PlainValue h.publicKey ∧ PlainValue (serverEndpoint publicHost h)) :
    (clientParams st priv target routes).Plain ∧ (clientParams st priv target routes).mtu ≤ 2 ^ 63 - 1 := by
  have server : PlainValue st.dns ∧ PlainValue st.publicKey ∧ PlainValue st.endpoint ∧ st.mtu ≤ 2 ^ 63 - 1 := by
    rcases status_cases read with ⟨_, _, dns, mtu, key, endpoint⟩ | ⟨_, _, dns, mtu, key, endpoint⟩ |
      ⟨_, dns, mtu, key, endpoint⟩
    · rw [dns, key, endpoint, mtu]
      exact ⟨dns_plain h.file, texts.2.1, texts.2.2, (parseConf h.file).mtu_le⟩
    · rw [dns, key, endpoint, mtu]
      exact ⟨plainValue_nil, texts.2.1, texts.2.2, by decide⟩
    · rw [dns, key, endpoint, mtu]
      exact ⟨plainValue_nil, plainValue_nil, plainValue_nil, by decide⟩
  obtain ⟨dns, key, endpoint, high⟩ := server
  exact ⟨⟨texts.1, plainValue_peerOwnAddress _, dns, key, endpoint, routesForPeer_plain routed, rfl⟩, high⟩

/-- A client config matches the server exactly if the server has no obfuscation
settings, and its status was read in full. -/
theorem client_config_matches_iff (secret : storedKey env pubkey p = some priv)
    (listed : ((findListed env.list pubkey).exec p.host).1 = some target)
    (routed : routesForPeer env.mesh target.allowedIPs = some routes)
    (built : (buildClientConfigText env publicHost pubkey).exec p = (some text, p')) :
    ClientMatches kind p.host publicHost priv (peerOwnAddress target.allowedIPs) routes (parseConf text) ↔
      Faithful kind env.status p.host publicHost priv := by
  obtain ⟨st, read, rfl⟩ := buildClientConfigText_done secret listed routed built
  by_cases texts : PlainValue priv ∧ PlainValue p.host.publicKey ∧ PlainValue (serverEndpoint publicHost p.host)
  · rw [faithful_iff read texts]
    obtain ⟨plain, high⟩ := clientParams_plain read routed texts
    exact clientMatches_build_iff plain high ⟨rfl, rfl⟩ rfl
  · exact iff_of_false (fun client => texts client.texts_plain) fun faithful =>
      texts ⟨faithful.privateKey, faithful.publicKey, faithful.endpoint⟩

end

def clientPanel (file : Text) : Panel where
  host := ⟨file, "c2Vy".toList, 51820, KeyTable.empty.upsert "a2V5".toList ⟨["10.8.0.2/32".toList], 0⟩⟩
  tables := { secrets := KeyTable.empty.upsert "a2V5".toList "cHJp".toList }

def clientEnv : ClientEnv where
  mesh := { own := some { up := true, address := "10.8.0.1/24".toList } }

theorem client_config_matches_iff_sample :
    ∃ text, ((buildClientConfigText clientEnv "vpn".toList "a2V5".toList).exec
        (clientPanel "[Interface]\nDNS = 1.1.1.1\n".toList)).1 = some text ∧
      ClientMatches .amneziawg (clientPanel "[Interface]\nDNS = 1.1.1.1\n".toList).host "vpn".toList "cHJp".toList
        "10.8.0.2/32".toList ["10.8.0.0/24".toList] (parseConf text) := by
  have faithful : Faithful .amneziawg {} (clientPanel "[Interface]\nDNS = 1.1.1.1\n".toList).host "vpn".toList
      "cHJp".toList := by
    refine ⟨fun _ => by decide +kernel, .inl rfl, .inl ⟨rfl, rfl⟩, by decide +kernel, ?_, ?_, ?_⟩
    · exact ⟨by decide +kernel, by decide⟩
    · exact ⟨by decide +kernel, by decide⟩
    · exact ⟨by decide +kernel, by decide +kernel⟩
  have listed : ((findListed clientEnv.list "a2V5".toList).exec
      (clientPanel "[Interface]\nDNS = 1.1.1.1\n".toList).host).1 = some ⟨[], ["10.8.0.2/32".toList], 0⟩ := by
    decide +kernel
  have secret : storedKey clientEnv "a2V5".toList (clientPanel "[Interface]\nDNS = 1.1.1.1\n".toList) =
      some "cHJp".toList := by decide +kernel
  exact ⟨_, rfl, (client_config_matches_iff secret listed (by decide +kernel) (Prod.ext rfl rfl)).mpr faithful⟩

/-- The client is not told of the noise that its server expects. -/
theorem client_config_lacks_obfuscation :
    ∃ text, ((buildClientConfigText clientEnv "vpn".toList "a2V5".toList).exec
        (clientPanel "[Interface]\nJc = 4\n".toList)).1 = some text ∧
      ¬ ClientMatches .amneziawg (clientPanel "[Interface]\nJc = 4\n".toList).host "vpn".toList "cHJp".toList
        "10.8.0.2/32".toList ["10.8.0.0/24".toList] (parseConf text) := by
  refine ⟨_, rfl, fun client => ?_⟩
  have told := client.obfuscation rfl "Jc".toList (by decide) "4".toList (by decide +kernel)
  exact absurd told (by decide +kernel)

end Protean.WgFamily
