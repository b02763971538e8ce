import Protean.Json

namespace Protean.Xray

/-- Operator-supplied values by key. -/
abbrev Params := List (String × Text)

/-- An empty value counts as none. -/
def Params.get (p : Params) (key : String) (default : Text) : Text :=
  match p.lookup key with
  | some v => if v ≠ [] then v else default
  | none => default

structure ParamSpec where
  key : String
  default : Text
  required : Bool
  deriving DecidableEq, Repr

structure Client where
  name : Text
  uuid : Text
  password : Text
  deriving DecidableEq, Repr

inductive BuildError
  | missingParameter (key : String)
  | clientRequired
  | realityKeyMissing
  | unknownClientFormat (format : Text)
  | unresolvedPlaceholder (token : String)
  deriving DecidableEq, Repr

def requireParams (p : Params) (specs : List ParamSpec) : Except BuildError Unit :=
  match specs.find? fun s => s.required && p.get s.key s.default == [] with
  | some s => .error (.missingParameter s.key)
  | none => .ok ()

def needClients (clients : List Client) : Except BuildError Unit :=
  if clients = [] then .error .clientRequired else .ok ()

/-- The error of `Atoi` is dropped: what does not read as a number is port 0. -/
def portOf (p : Params) (default : Text) : Int := Text.atoiValue (p.get "port" default)

def defaultCertPath : Text := "/etc/xray/tls/cert.pem".toList

def defaultKeyPath : Text := "/etc/xray/tls/key.pem".toList

def tlsSettings (p : Params) : Json :=
  .obj [("serverName", .str (p.get "domain" [])),
    ("certificates", .arr [.obj [("certificateFile", .str (p.get "cert_path" defaultCertPath)),
      ("keyFile", .str (p.get "key_path" defaultKeyPath))]])]

def vlessClients (clients : List Client) (flow : Text) : List Json :=
  clients.map fun c => .obj (("id", .str c.uuid) :: if flow ≠ [] then [("flow", .str flow)] else [])

def vmessClients (clients : List Client) : List Json := clients.map fun c => .obj [("id", .str c.uuid)]

def trojanClients (clients : List Client) : List Json :=
  clients.map fun c => .obj [("password", .str c.password)]

/-- The strategies compiled into the panel. -/
inductive Builtin
  | realityVlessTCP
  | vlessVisionTLS
  | vmessWSTLS
  | trojanTCPTLS
  | shadowsocks2022
  | vlessGRPCTLS
  deriving DecidableEq, Repr

namespace Builtin

def all : List Builtin :=
  [realityVlessTCP, vlessVisionTLS, vmessWSTLS, trojanTCPTLS, shadowsocks2022, vlessGRPCTLS]

def name : Builtin → Text
  | realityVlessTCP => "reality-vless-tcp".toList
  | vlessVisionTLS => "vless-vision-tls".toList
  | vmessWSTLS => "vmess-ws-tls".toList
  | trojanTCPTLS => "trojan-tcp-tls".toList
  | shadowsocks2022 => "shadowsocks-2022".toList
  | vlessGRPCTLS => "vless-grpc-tls".toList

/-- The port a strategy takes when none is stored. -/
def defaultPort : Builtin → Text
  | shadowsocks2022 => ['8', '3', '8', '8']
  | _ => ['4', '4', '3']

def ssMethod : Text := "2022-blake3-aes-128-gcm".toList

def tlsSpecs : List ParamSpec :=
  [⟨"cert_path", defaultCertPath, false⟩, ⟨"key_path", defaultKeyPath, false⟩]

def params : Builtin → List ParamSpec
  | realityVlessTCP => [⟨"port", ['4', '4', '3'], true⟩, ⟨"sni", [], true⟩, ⟨"dest", [], true⟩]
  | vlessVisionTLS => [⟨"port", ['4', '4', '3'], true⟩, ⟨"domain", [], true⟩] ++ tlsSpecs
  | vmessWSTLS =>
    [⟨"port", ['4', '4', '3'], true⟩, ⟨"domain", [], true⟩, ⟨"ws_path", "/ws".toList, false⟩] ++ tlsSpecs
  | trojanTCPTLS => [⟨"port", ['4', '4', '3'], true⟩, ⟨"domain", [], true⟩] ++ tlsSpecs
  | shadowsocks2022 => [⟨"port", ['8', '3', '8', '8'], true⟩, ⟨"ss_method", ssMethod, false⟩]
  | vlessGRPCTLS =>
    [⟨"port", ['4', '4', '3'], true⟩, ⟨"domain", [], true⟩, ⟨"grpc_service", "grpc".toList, false⟩] ++ tlsSpecs

/-- What every inbound starts with. -/
def inbound (s : Builtin) (p : Params) (protocol : String) (rest : List (String × Json)) : Json :=
  .obj ([("listen", .text "0.0.0.0"), ("port", .int (portOf p s.defaultPort)),
    ("protocol", .text protocol)] ++ rest)

def visionFlow : Text := "xtls-rprx-vision".toList

/-- The inbound object of a strategy once its parameters and clients are there. -/
def inboundOf (s : Builtin) (p : Params) (clients : List Client) : Json :=
  match s with
  | realityVlessTCP =>
    s.inbound p "vless"
      [("settings", .obj [("clients", .arr (vlessClients clients visionFlow)), ("decryption", .text "none")]),
        ("streamSettings", .obj [("network", .text "tcp"), ("security", .text "reality"),
          ("realitySettings", .obj [("show", .bool false), ("dest", .str (p.get "dest" [])),
            ("serverNames", .arr [.str (p.get "sni" [])]), ("privateKey", .str (p.get "reality_priv" [])),
            ("shortIds", .arr [.str (p.get "reality_sid" [])])])])]
  | vlessVisionTLS =>
    s.inbound p "vless"
      [("settings", .obj [("clients", .arr (vlessClients clients visionFlow)), ("decryption", .text "none")]),
        ("streamSettings", .obj [("network", .text "tcp"), ("security", .text "tls"),
          ("tlsSettings", tlsSettings p)])]
  | vmessWSTLS =>
    s.inbound p "vmess"
      [("settings", .obj [("clients", .arr (vmessClients clients))]),
        ("streamSettings", .obj [("network", .text "ws"), ("security", .text "tls"),
          ("wsSettings", .obj [("path", .str (p.get "ws_path" "/ws".toList))]), ("tlsSettings", tlsSettings p)])]
  | trojanTCPTLS =>
    s.inbound p "trojan"
      [("settings", .obj [("clients", .arr (trojanClients clients))]),
        ("streamSettings", .obj [("network", .text "tcp"), ("security", .text "tls"),
          ("tlsSettings", tlsSettings p)])]
  | shadowsocks2022 =>
    s.inbound p "shadowsocks"
      [("settings", .obj [("method", .str (p.get "ss_method" ssMethod)),
        ("password", .str (clients.head?.elim [] Client.password)), ("network", .text "tcp,udp")])]
  | vlessGRPCTLS =>
    s.inbound p "vless"
      [("settings", .obj [("clients", .arr (vlessClients clients [])), ("decryption", .text "none")]),
        ("streamSettings", .obj [("network", .text "grpc"), ("security", .text "tls"),
          ("grpcSettings", .obj [("serviceName", .str (p.get "grpc_service" "grpc".toList))]),
          ("tlsSettings", tlsSettings p)])]

/-- Only the Reality strategy has a key that is not a parameter of its own. -/
def buildInbound (s : Builtin) (p : Params) (clients : List Client) : Except BuildError Json := do
  requireParams p s.params
  needClients clients
  if s = realityVlessTCP ∧ p.get "reality_priv" [] = [] then .error .realityKeyMissing
  else .ok (s.inboundOf p clients)

end Builtin

end Protean.Xray
