import Protean.Inet
import Protean.Xray.Strategies

namespace Protean.Xray

inductive CredKind
  | uuid
  | password
  deriving DecidableEq, Repr

structure Credential where
  kind : CredKind
  value : Text
  deriving DecidableEq, Repr

def Client.cred (c : Client) : CredKind → Text
  | .uuid => c.uuid
  | .password => c.password

def hexByte (b : UInt8) : Text := [Inet.hexDigit (b.toNat / 16), Inet.hexDigit (b.toNat % 16)]

/-- A UUID of version 4 from random bytes. -/
def newUUID (b : Vector UInt8 16) : Text :=
  let bytes := (b.toList.set 6 ((b[6] &&& 0x0f) ||| 0x40)).set 8 ((b[8] &&& 0x3f) ||| 0x80)
  ['-'].intercalate ([(0, 4), (4, 2), (6, 2), (8, 2), (10, 6)].map fun part =>
    ((bytes.drop part.1).take part.2).flatMap hexByte)

def newPassword (b : Vector UInt8 16) : Text := b.toList.flatMap hexByte

def CredKind.new : CredKind → Vector UInt8 16 → Text
  | .uuid => newUUID
  | .password => newPassword

theorem CredKind.new_ne_nil (kind : CredKind) (b : Vector UInt8 16) : kind.new b ≠ [] := by
  obtain ⟨⟨bytes⟩, size⟩ := b
  cases bytes with
  | nil => cases size
  | cons first rest => cases kind <;> simp [CredKind.new, newUUID, newPassword, hexByte, List.intercalate]

/-- A share link, before it is written out. -/
inductive ShareLink
  | vless (uuid host : Text) (port : Int) (query : List (String × Text)) (name : Text)
  | vmess (conf : List (String × Text))
  | trojan (password host : Text) (port : Int) (query : List (String × Text)) (name : Text)
  | shadowsocks (method password host : Text) (port : Int) (name : Text)
  /-- The template of a module, filled in. -/
  | template (text : Text)
  deriving DecidableEq, Repr

def ShareLink.credential : ShareLink → Option Credential
  | vless uuid _ _ _ _ => some ⟨.uuid, uuid⟩
  | vmess conf => (conf.lookup "id").map (⟨.uuid, ·⟩)
  | trojan password _ _ _ _ => some ⟨.password, password⟩
  | shadowsocks _ password _ _ _ => some ⟨.password, password⟩
  | template _ => none

def linkName (c : Client) (host : Text) : Text := if c.name ≠ [] then c.name else host

inductive SecretKind
  | realityKeypair
  | shortID
  | uuid
  | password
  | unknown (kind : Text)
  deriving DecidableEq, Repr

structure SecretSpec where
  key : String
  kind : SecretKind
  pairKey : String
  deriving DecidableEq, Repr

/-- What the provider asks of a strategy, compiled or of a module. -/
structure StrategyMethods where
  params : List ParamSpec
  cred : CredKind
  multiClient : Bool
  /-- Empty for a strategy without any. -/
  instanceSecrets : List SecretSpec
  buildInbound : Params → List Client → Except BuildError Json
  clientLink : Params → Client → Text → Option ShareLink

namespace Builtin

def cred : Builtin → CredKind
  | realityVlessTCP => .uuid
  | vlessVisionTLS => .uuid
  | vmessWSTLS => .uuid
  | trojanTCPTLS => .password
  | shadowsocks2022 => .password
  | vlessGRPCTLS => .uuid

def multiClient : Builtin → Bool
  | shadowsocks2022 => false
  | _ => true

def instanceSecrets : Builtin → List SecretSpec
  | realityVlessTCP => [⟨"reality_priv", .realityKeypair, "reality_pub"⟩, ⟨"reality_sid", .shortID, ""⟩]
  | _ => []

def clientLink (s : Builtin) (p : Params) (c : Client) (host : Text) : Option ShareLink :=
  let port := portOf p s.defaultPort
  let domain := p.get "domain" host
  match s with
  | realityVlessTCP =>
    if p.get "reality_pub" [] = [] then none
    else some (.vless c.uuid host port
      [("security", "reality".toList), ("encryption", "none".toList), ("type", "tcp".toList), ("sni", p.get "sni" []),
        ("fp", "chrome".toList), ("pbk", p.get "reality_pub" []), ("sid", p.get "reality_sid" []), ("flow", visionFlow)]
      (linkName c host))
  | vlessVisionTLS =>
    some (.vless c.uuid domain port
      [("security", "tls".toList), ("encryption", "none".toList), ("type", "tcp".toList), ("sni", domain),
        ("flow", visionFlow)]
      (linkName c host))
  | vmessWSTLS =>
    some (.vmess
      [("v", "2".toList), ("ps", linkName c host), ("add", domain), ("port", Text.itoa port), ("id", c.uuid),
        ("aid", "0".toList), ("scy", "auto".toList), ("net", "ws".toList), ("type", "none".toList), ("host", domain),
        ("path", p.get "ws_path" "/ws".toList), ("tls", "tls".toList), ("sni", domain)])
  | trojanTCPTLS =>
    some (.trojan c.password domain port
      [("security", "tls".toList), ("type", "tcp".toList), ("sni", domain)] (linkName c host))
  | shadowsocks2022 => some (.shadowsocks (p.get "ss_method" ssMethod) c.password host port (linkName c host))
  | vlessGRPCTLS =>
    some (.vless c.uuid domain port
      [("security", "tls".toList), ("encryption", "none".toList), ("type", "grpc".toList),
        ("serviceName", p.get "grpc_service" "grpc".toList), ("sni", domain)]
      (linkName c host))

def strategy (s : Builtin) : StrategyMethods where
  params := s.params
  cred := s.cred
  multiClient := s.multiClient
  instanceSecrets := s.instanceSecrets
  buildInbound := s.buildInbound
  clientLink := s.clientLink

/-- A link carries the credential of its client. -/
theorem credential_clientLink {s : Builtin} {p : Params} {c : Client} {host : Text} {link : ShareLink}
    (made : s.clientLink p c host = some link) : link.credential = some ⟨s.cred, c.cred s.cred⟩ := by
  cases s with
  | realityVlessTCP =>
    simp only [clientLink] at made
    split at made
    · cases made
    · cases made
      rfl
  | _ =>
    cases made
    rfl

/-- An inbound is built from parameters that are complete and from clients. -/
theorem of_buildInbound {s : Builtin} {p : Params} {clients : List Client} {inbound : Json}
    (made : s.buildInbound p clients = .ok inbound) :
    requireParams p s.params = .ok () ∧ clients ≠ [] ∧ inbound = s.inboundOf p clients := by
  unfold buildInbound needClients at made
  revert made
  cases requireParams p s.params with
  | error _ => exact fun made => by cases made
  | ok _ =>
    by_cases none : clients = []
    · rw [if_pos none]
      exact fun made => by cases made
    · rw [if_neg none]
      by_cases keyless : s = realityVlessTCP ∧ p.get "reality_priv" [] = []
      · rw [if_pos keyless]
        exact fun made => by cases made
      · rw [if_neg keyless]
        intro made
        cases made
        exact ⟨rfl, none, rfl⟩

end Builtin

theorem get_of_requireParams {p : Params} {specs : List ParamSpec} (complete : requireParams p specs = .ok ())
    {spec : ParamSpec} (listed : spec ∈ specs) (required : spec.required = true) : p.get spec.key spec.default ≠ [] := by
  unfold requireParams at complete
  split at complete
  · cases complete
  · rename_i found
    intro empty
    exact List.find?_eq_none.mp found spec listed (by simp [required, empty])

/-- The strategies of the panel first, then the modules of the directory, as they
are when it is looked through. -/
def get (modules : Text → Option StrategyMethods) (name : Text) : Option StrategyMethods :=
  match Builtin.all.find? (·.name = name) with
  | some s => some s.strategy
  | none => modules name

theorem Builtin.find_name (s : Builtin) : Builtin.all.find? (·.name = s.name) = some s := by
  cases s <;> decide +kernel

theorem get_name (modules : Text → Option StrategyMethods) (s : Builtin) : get modules s.name = some s.strategy := by
  rw [get, s.find_name]

/-- A field that is no text counts as empty. -/
def textField (j : Json) (name : String) : Text :=
  match j.field name with
  | some (.str t) => t
  | _ => []

def items : Option Json → List Json
  | some (.arr list) => list
  | _ => []

/-- The credentials an inbound lets in. -/
def accepted (inbound : Json) : List Credential :=
  let protocol := textField inbound "protocol"
  let clients := items (inbound.path "settings" "clients")
  if protocol = "vless".toList ∨ protocol = "vmess".toList then clients.map fun c => ⟨.uuid, textField c "id"⟩
  else if protocol = "trojan".toList then clients.map fun c => ⟨.password, textField c "password"⟩
  else if protocol = "shadowsocks".toList then
    ((inbound.field "settings").map fun settings => ⟨.password, textField settings "password"⟩).toList
  else []

theorem accepted_vless {inbound : Json} {clients : List Client} {flow : Text}
    (protocol : textField inbound "protocol" = "vless".toList)
    (listed : inbound.path "settings" "clients" = some (.arr (vlessClients clients flow))) :
    accepted inbound = clients.map fun c => ⟨.uuid, c.uuid⟩ := by
  rw [accepted, protocol, listed]
  exact List.map_map

namespace Builtin

theorem accepted_inboundOf (s : Builtin) (p : Params) (clients : List Client) :
    accepted (s.inboundOf p clients) =
      if s.multiClient then clients.map fun c => ⟨s.cred, c.cred s.cred⟩
      else [⟨s.cred, clients.head?.elim [] Client.password⟩] := by
  cases s with
  | shadowsocks2022 => rfl
  | vmessWSTLS | trojanTCPTLS => exact List.map_map
  | _ => exact accepted_vless rfl rfl

end Builtin

end Protean.Xray
