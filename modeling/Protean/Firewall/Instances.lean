import Protean.Firewall.Panel
import Protean.Xray.FileModule

namespace Protean.Firewall

inductive ProviderType
  | wireguard
  | amneziawg
  | openvpn
  | ikev2
  | xray
  deriving DecidableEq, Repr

def providerTypeLabel : ProviderType → Text
  | .wireguard => "WireGuard".toList
  | .amneziawg => "AmneziaWG".toList
  | .openvpn => "OpenVPN".toList
  | .ikev2 => "IKEv2".toList
  | .xray => "Xray".toList

structure ServerInstance where
  localName : Text
  type : ProviderType
  config : List (String × Text)
  deriving DecidableEq, Repr

/-- What a name has to look like for an instance to be created. -/
def validInstanceName : Text → Bool
  | [] => false
  | c :: cs => c.isLower && cs.all fun d => d.isLower || d.isDigit || d = '_' || d = '-'

/-- A key that is absent reads as the empty text. -/
def ServerInstance.setting (inst : ServerInstance) (key : String) : Text := (inst.config.lookup key).getD []

/-- The deployment's defaults. Loading the configuration refuses any other protocol. -/
structure Template where
  openVPNListenPort : Int
  openVPNProto : Text
  valid : openVPNProto = Word.udp ∨ openVPNProto = Word.tcp

/-- The port and the protocol `buildProviders` gives an OpenVPN instance. -/
def openvpnPort (tmpl : Template) (inst : ServerInstance) : Int :=
  let port := Text.atoiValue (inst.setting "listen_port")
  if port = 0 then tmpl.openVPNListenPort else port

def openvpnProto (tmpl : Template) (inst : ServerInstance) : Text :=
  if inst.setting "proto" = [] then tmpl.openVPNProto else inst.setting "proto"

/-- What the registry, the host and the store answer when they are asked about
an instance. `stored` is the decoded row of an Xray instance. -/
structure Seen where
  registered : Bool
  statusRead : Bool
  up : Bool
  dumpPort : Int
  stored : Option (Text × Xray.Params)
  clients : List Xray.Client
  deriving DecidableEq, Repr

structure ServerStatus where
  up : Bool
  listenPort : Int
  deriving DecidableEq, Repr

abbrev Row := ServerInstance × Seen

/-- The port in a provider's status: the WireGuard family reports the live one,
OpenVPN the configured one, the others none. -/
def reportedPort (tmpl : Template) (row : Row) : Int :=
  match row.1.type with
  | .wireguard => row.2.dumpPort
  | .amneziawg => row.2.dumpPort
  | .openvpn => openvpnPort tmpl row.1
  | .ikev2 => 0
  | .xray => 0

def status (tmpl : Template) (row : Row) : Option ServerStatus :=
  if !row.2.statusRead then none
  else if !row.2.up then some ⟨false, 0⟩
  else some ⟨true, reportedPort tmpl row⟩

def portLabel (inst : ServerInstance) : Text :=
  providerTypeLabel inst.type ++ " (".toList ++ inst.localName ++ ")".toList

/-- One round of the loop of `instancePorts`, for a registered provider. -/
def instancePort (tmpl : Template) (row : Row) : List InstancePort :=
  match status tmpl row with
  | none => []
  | some st =>
    if !st.up then []
    else match row.1.type with
      | .wireguard => if 0 < st.listenPort then [⟨portLabel row.1, Word.udp, st.listenPort⟩] else []
      | .amneziawg => if 0 < st.listenPort then [⟨portLabel row.1, Word.udp, st.listenPort⟩] else []
      | .openvpn =>
        if 0 < st.listenPort then
          [⟨portLabel row.1, if row.1.setting "proto" = Word.tcp then Word.tcp else Word.udp, st.listenPort⟩]
        else []
      | .ikev2 =>
        [⟨portLabel row.1, Word.udp, 500⟩, ⟨portLabel row.1 ++ " (NAT-T)".toList, Word.udp, 4500⟩]
      | .xray =>
        match row.2.stored with
        | none => []
        | some (_, params) =>
          match Text.atoi ((params.lookup "port").getD []) with
          | some port => if 0 < port then [⟨portLabel row.1, Word.tcp, port⟩] else []
          | none => []

def instancePorts (tmpl : Template) (rows : List Row) : List InstancePort :=
  rows.flatMap fun row => if row.2.registered then instancePort tmpl row else []

/-- What the panel knows of a server besides its instances. -/
structure Server where
  sshPort : Int
  panelHost : Bool
  panelPorts : List Int
  deriving DecidableEq, Repr

def serverBaseline (tmpl : Template) (server : Server) (rows : List Row) : List BaselinePort :=
  computeBaseline server.sshPort (instancePorts tmpl rows) server.panelHost server.panelPorts

/-- What OpenVPN takes a server's `proto` for. Any other word keeps it from starting. -/
def openvpnTransport (proto : Text) : Option Text :=
  if proto ∈ ["udp".toList, "udp4".toList, "udp6".toList] then some Word.udp
  else if proto ∈ ["tcp".toList, "tcp4".toList, "tcp6".toList, "tcp-server".toList, "tcp4-server".toList,
    "tcp6-server".toList] then some Word.tcp
  else none

/-- Which protocols and ports the Xray core binds for an inbound. -/
structure XrayCore where
  listens : Json → List (Text × Int)

def bindable (port : Int) : Prop := 1 ≤ port ∧ port ≤ 65535

instance (port : Int) : Decidable (bindable port) := inferInstanceAs (Decidable (_ ∧ _))

/-- The documented meaning of the inbounds the compiled strategies build: a
stream inbound binds its TCP port, and a Shadowsocks inbound those of its
networks. A port that cannot be bound keeps the core from starting. -/
structure XrayCore.Documented (core : XrayCore) : Prop where
  ranged : ∀ (inbound : Json), ∀ q ∈ core.listens inbound, (q.1 = Word.tcp ∨ q.1 = Word.udp) ∧ bindable q.2
  stream : ∀ (inbound : Json) (port : Int) (protocol network : String),
    inbound.field "port" = some (.int port) → inbound.field "protocol" = some (.text protocol) →
    protocol ∈ ["vless", "vmess", "trojan"] → inbound.path "streamSettings" "network" = some (.text network) →
    network ∈ ["tcp", "ws", "grpc"] →
    core.listens inbound = if bindable port then [(Word.tcp, port)] else []
  shadowsocks : ∀ (inbound : Json) (port : Int),
    inbound.field "port" = some (.int port) → inbound.field "protocol" = some (.text "shadowsocks") →
    inbound.path "settings" "network" = some (.text "tcp,udp") → inbound.field "streamSettings" = none →
    core.listens inbound = if bindable port then [(Word.tcp, port), (Word.udp, port)] else []

/-- The inbound the stored strategy and parameters of an Xray instance build. -/
def storedInbound (files : List Xray.FileModule) (seen : Seen) : Option Json :=
  seen.stored.bind fun (strategy, params) =>
    (Xray.strategyGet files strategy).bind fun s => (s.buildInbound params seen.clients).toOption

/-- Where an instance that is up listens. -/
def listens (core : XrayCore) (files : List Xray.FileModule) (tmpl : Template) (row : Row) : List (Text × Int) :=
  match row.1.type with
  | .wireguard => if 0 < row.2.dumpPort then [(Word.udp, row.2.dumpPort)] else []
  | .amneziawg => if 0 < row.2.dumpPort then [(Word.udp, row.2.dumpPort)] else []
  | .openvpn =>
    match openvpnTransport (openvpnProto tmpl row.1) with
    | some transport =>
      if bindable (openvpnPort tmpl row.1) then [(transport, openvpnPort tmpl row.1)] else []
    | none => []
  | .ikev2 => [(Word.udp, 500), (Word.udp, 4500)]
  | .xray => (storedInbound files row.2).elim [] core.listens

theorem buildInbound_eq {s : Xray.Builtin} {p : Xray.Params} {clients : List Xray.Client} {inbound : Json}
    (built : s.buildInbound p clients = .ok inbound) : inbound = s.inboundOf p clients := by
  unfold Xray.Builtin.buildInbound at built
  cases required : Xray.requireParams p s.params with
  | error e => rw [required] at built; cases built
  | ok _ =>
    cases needed : Xray.needClients clients with
    | error e => rw [required, needed] at built; cases built
    | ok _ =>
      rw [required, needed] at built
      simp only [bind, Except.bind] at built
      split at built
      · cases built
      · exact (Except.ok.inj built).symm

/-- Every compiled strategy binds its TCP port, and Shadowsocks its UDP port too. -/
theorem inboundOf_listens {core : XrayCore} (documented : core.Documented) (s : Xray.Builtin)
    (p : Xray.Params) (clients : List Xray.Client) :
    core.listens (s.inboundOf p clients) =
      if bindable (Xray.portOf p s.defaultPort) then
        (Word.tcp, Xray.portOf p s.defaultPort) ::
          if s = .shadowsocks2022 then [(Word.udp, Xray.portOf p s.defaultPort)] else []
      else [] := by
  cases s with
  | realityVlessTCP | vlessVisionTLS => exact documented.stream _ _ "vless" "tcp" rfl rfl (by decide) rfl (by decide)
  | vmessWSTLS => exact documented.stream _ _ "vmess" "ws" rfl rfl (by decide) rfl (by decide)
  | trojanTCPTLS => exact documented.stream _ _ "trojan" "tcp" rfl rfl (by decide) rfl (by decide)
  | shadowsocks2022 => exact documented.shadowsocks _ _ rfl rfl rfl rfl
  | vlessGRPCTLS => exact documented.stream _ _ "vless" "grpc" rfl rfl (by decide) rfl (by decide)

/- A small deployment, for examples. -/

def sampleTemplate : Template := ⟨1194, Word.udp, .inl rfl⟩

def sampleServer : Server := ⟨22, true, [80, 443]⟩

def liveSeen (dumpPort : Int) (stored : Option (Text × Xray.Params)) : Seen :=
  ⟨true, true, true, dumpPort, stored, [⟨"phone".toList, "id".toList, "secret".toList⟩]⟩

def wgRow : Row := (⟨"wg0".toList, .wireguard, []⟩, liveSeen 51820 none)

end Protean.Firewall
