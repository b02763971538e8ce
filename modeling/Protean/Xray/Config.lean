import Protean.Xray.Links

namespace Protean.Xray

/-- The fields of an outbound object. -/
abbrev Outbound := List (String × Json)

structure RelaySpec where
  strategy : Text
  host : Text
  params : Params
  deriving DecidableEq, Repr

def setField {α : Type} (fields : List (String × α)) (name : String) (value : α) : List (String × α) :=
  (name, value) :: fields.filter (·.1 ≠ name)

theorem lookup_filter_ne {α : Type} {key name : String} (other : key ≠ name) (fields : List (String × α)) :
    (fields.filter (·.1 ≠ name)).lookup key = fields.lookup key := by
  induction fields with
  | nil => rfl
  | cons f fields ih =>
    obtain ⟨own, v⟩ := f
    rw [List.filter_cons]
    split
    · rw [List.lookup_cons, List.lookup_cons, ih]
    · rename_i dropped
      have same : own = name := by simpa using dropped
      have no : (key == own) = false := by simpa [same] using other
      rw [ih, List.lookup_cons, no]

section
variable {α : Type} {fields : List (String × α)} {name key : String} {value : α}

theorem lookup_setField : (setField fields name value).lookup name = some value := by
  rw [setField, List.lookup_cons, beq_self_eq_true]

theorem lookup_setField_of_ne (other : key ≠ name) :
    (setField fields name value).lookup key = fields.lookup key := by
  rw [setField, List.lookup_cons, beq_eq_false_iff_ne.mpr other]
  exact lookup_filter_ne other fields

end

def freedomOutbound : Outbound := [("protocol", .text "freedom"), ("tag", .text "direct")]

def blackholeOutbound : Outbound := [("protocol", .text "blackhole"), ("tag", .text "blocked")]

/-- Dials through another outbound. -/
def setDialerProxy (o : Outbound) (tag : Text) : Outbound :=
  let stream : List (String × Json) := match o.lookup "streamSettings" with
    | some (.obj fields) => fields
    | _ => []
  setField o "streamSettings" (.obj (setField stream "sockopt" (.obj [("dialerProxy", .str tag)])))

def vlessOutbound (host : Text) (port : Int) (uuid flow : Text) (stream : Json) : Outbound :=
  let user := [("id", Json.str uuid), ("encryption", .text "none")] ++ if flow ≠ [] then [("flow", .str flow)] else []
  [("protocol", .text "vless"),
    ("settings", .obj [("vnext", .arr [.obj
      [("address", .str host), ("port", .int port), ("users", .arr [.obj user])]])]),
    ("streamSettings", stream)]

/-- The outbound that dials a relay, for the strategies that can. -/
def buildRelayOutbound (spec : RelaySpec) : Option Outbound :=
  let p := spec.params
  let port := portOf p ['4', '4', '3']
  let tls := ("tlsSettings", Json.obj [("serverName", .str (p.get "domain" spec.host))])
  match Builtin.all.find? (·.name = spec.strategy) with
  | some .realityVlessTCP =>
    some (vlessOutbound spec.host port (p.get "uuid" []) Builtin.visionFlow (.obj
      [("network", .text "tcp"), ("security", .text "reality"), ("realitySettings", .obj
        [("serverName", .str (p.get "sni" [])), ("publicKey", .str (p.get "reality_pub" [])),
          ("shortId", .str (p.get "reality_sid" [])), ("fingerprint", .text "chrome")])]))
  | some .vlessVisionTLS =>
    some (vlessOutbound spec.host port (p.get "uuid" []) Builtin.visionFlow (.obj
      [("network", .text "tcp"), ("security", .text "tls"), tls]))
  | some .vlessGRPCTLS =>
    some (vlessOutbound spec.host port (p.get "uuid" []) [] (.obj
      [("network", .text "grpc"), ("security", .text "tls"),
        ("grpcSettings", .obj [("serviceName", .str (p.get "grpc_service" "grpc".toList))]), tls]))
  | some .trojanTCPTLS =>
    some [("protocol", .text "trojan"),
      ("settings", .obj [("servers", .arr [.obj
        [("address", .str spec.host), ("port", .int port), ("password", .str (p.get "password" []))]])]),
      ("streamSettings", .obj [("network", .text "tcp"), ("security", .text "tls"), tls])]
  | some .shadowsocks2022 =>
    some [("protocol", .text "shadowsocks"),
      ("settings", .obj [("servers", .arr [.obj
        [("address", .str spec.host), ("port", .int port), ("method", .str (p.get "ss_method" Builtin.ssMethod)),
          ("password", .str (p.get "password" []))]])])]
  | some .vmessWSTLS => none
  | none => none

/-- A relay without a strategy is passed over. -/
def relayOutbounds (relays : List RelaySpec) : Option (List Outbound) :=
  (relays.filter (·.strategy ≠ [])).mapM buildRelayOutbound

def relayTag (i : Nat) : Text := "relay".toList ++ Text.decimal i

/-- Each hop dials through the next one. -/
def chainHops (relays : List Outbound) : List Outbound :=
  relays.mapIdx fun i hop =>
    let tagged := setField hop "tag" (.str (relayTag i))
    if i + 1 < relays.length then setDialerProxy tagged (relayTag (i + 1)) else tagged

/-- With a relay all traffic leaves through the first hop. -/
def buildServerConfig (inbounds : List Json) (relays : List Outbound) : Option Json :=
  if inbounds = [] then none
  else
    let direct : List Outbound := [freedomOutbound, blackholeOutbound]
    let routing : List (String × Json) := if relays = [] then []
      else [("routing", .obj [("domainStrategy", .text "AsIs"), ("rules", .arr [.obj
        [("type", .text "field"), ("network", .text "tcp,udp"), ("outboundTag", .str (relayTag 0))]])])]
    some (.obj ([("log", .obj [("loglevel", .text "warning")]), ("inbounds", .arr inbounds),
      ("outbounds", .arr ((chainHops relays ++ direct).map .obj))] ++ routing))

/-- The credentials a server config lets in. -/
def credentials (conf : Json) : List Credential := (items (conf.field "inbounds")).flatMap accepted

theorem credentials_buildServerConfig {inbound conf : Json} {relays : List Outbound}
    (built : buildServerConfig [inbound] relays = some conf) : credentials conf = accepted inbound := by
  cases built
  exact List.append_nil _

end Protean.Xray
