import Protean.NetUrl
import Protean.Xray.Config

namespace Protean.Xray

open NetUrl

def hostPort (host : Text) (port : Int) : Text := host ++ ':' :: Text.itoa port

def queryValues (query : List (String × Text)) : Values := query.map fun pair => (pair.1.toList, pair.2)

/-- A link as it is handed out. The JSON of a VMess link is what `marshal` makes of it. -/
def ShareLink.toText (marshal : List (String × Text) → Text) : ShareLink → Text
  | vless uuid host port query name =>
    "vless://".toList ++ URL.toText ⟨some uuid, hostPort host port, (queryValues query).encode, name⟩
  | vmess conf => "vmess://".toList ++ Base64.encodeStd (utf8 (marshal conf))
  | trojan password host port query name =>
    "trojan://".toList ++ URL.toText ⟨some password, hostPort host port, (queryValues query).encode, name⟩
  | shadowsocks method password host port name =>
    "ss://".toList ++ (Base64.encode (utf8 (method ++ ':' :: password)) ++ '@' :: hostPort host port) ++ '#' :: name
  | template text => text

def ShareLink.host : ShareLink → Option Text
  | vless _ host _ _ _ => some host
  | vmess conf => conf.lookup "add"
  | trojan _ host _ _ _ => some host
  | shadowsocks _ _ host _ _ => some host
  | template _ => none

def hostOnly (hostport : Text) : Text := ((Text.cutLast ':' hostport).map Prod.fst).getD hostport

/-- What is no port counts as the one of HTTPS. -/
def portFromHost (hostport : Text) : Int := ((Text.cutLast ':' hostport).bind fun parts => Text.atoi parts.2).getD 443

section
variable (literal : Text → Option Text)

def vlessSpec (uuid host : Text) (port : Int) (q : Values) : RelaySpec :=
  let sni := q.get "sni".toList
  let p : Params := [("uuid", uuid), ("port", Text.itoa port), ("sni", sni)]
  if q.get "security".toList = "reality".toList then
    ⟨"reality-vless-tcp".toList, host,
      p ++ [("reality_pub", q.get "pbk".toList), ("reality_sid", q.get "sid".toList)]⟩
  else if q.get "type".toList = "grpc".toList then
    ⟨"vless-grpc-tls".toList, host, p ++ [("domain", sni), ("grpc_service", q.get "serviceName".toList)]⟩
  else ⟨"vless-vision-tls".toList, host, p ++ [("domain", sni)]⟩

/-- From the scheme on. -/
def parseVLESS (rest : Text) : Option RelaySpec := do
  let u ← NetUrl.parse literal rest
  let uuid := u.user.getD []
  if uuid = [] then none
  else some (vlessSpec uuid (hostOnly u.host) (portFromHost u.host) (parseQuery u.rawQuery))

def parseTrojan (rest : Text) : Option RelaySpec := do
  let u ← NetUrl.parse literal rest
  return ⟨"trojan-tcp-tls".toList, hostOnly u.host, [("password", u.user.getD []),
    ("port", Text.itoa (portFromHost u.host)), ("domain", (parseQuery u.rawQuery).get "sni".toList)]⟩

/-- Plain, or in either of the two forms of base64. -/
def decodeMaybe (t : Text) : Option Text :=
  if ':' ∈ t then some t
  else
    match Base64.decode t with
    | some bytes => ofUtf8 bytes
    | none => (Base64.decodeStd t).bind ofUtf8

def parseSS (rest : Text) : Option RelaySpec := do
  let front := ((Text.cut '#' rest).map Prod.fst).getD rest
  let (userinfo, hostport) ← Text.cutLast '@' front
  let dec ← decodeMaybe userinfo
  let (method, password) ← Text.cut ':' dec
  return ⟨"shadowsocks-2022".toList, hostOnly hostport,
    [("ss_method", method), ("password", password), ("port", Text.itoa (portFromHost hostport))]⟩

/-- The schemes one after the other. -/
def parseScheme (link : Text) : Option RelaySpec :=
  match Text.cutPrefix "vless://".toList link with
  | some rest => parseVLESS literal rest
  | none =>
    match Text.cutPrefix "trojan://".toList link with
    | some rest => parseTrojan literal rest
    | none =>
      match Text.cutPrefix "ss://".toList link with
      | some rest => parseSS rest
      | none => none

def parseClientLink (link : Text) : Option RelaySpec := parseScheme literal (Text.trimSpace link)

theorem parseScheme_vless (rest : Text) : parseScheme literal ("vless://".toList ++ rest) = parseVLESS literal rest := by
  rw [parseScheme, Text.cutPrefix_append]

theorem parseScheme_trojan (rest : Text) : parseScheme literal ("trojan://".toList ++ rest) = parseTrojan literal rest := by
  have other : Text.cutPrefix "vless://".toList ("trojan://".toList ++ rest) = none := rfl
  rw [parseScheme, other, Text.cutPrefix_append]

theorem parseScheme_ss (rest : Text) : parseScheme literal ("ss://".toList ++ rest) = parseSS rest := by
  have vless : Text.cutPrefix "vless://".toList ("ss://".toList ++ rest) = none := rfl
  have trojan : Text.cutPrefix "trojan://".toList ("ss://".toList ++ rest) = none := rfl
  rw [parseScheme, vless, trojan, Text.cutPrefix_append]

end

/-- What the two ends of a connection have to have in common. -/
structure Endpoint where
  protocol : Text
  port : Option Json
  credentials : List Credential
  network : Option Json
  security : Option Json
  flow : Option Json
  serverName : Option Json
  shortId : Option Json
  grpcService : Option Json
  cipher : Option Json

def Endpoint.ofInbound (inbound : Json) : Endpoint :=
  let stream := inbound.field "streamSettings"
  let reality := stream.bind (·.field "realitySettings")
  let tls := stream.bind (·.field "tlsSettings")
  { protocol := textField inbound "protocol"
    port := inbound.field "port"
    credentials := accepted inbound
    network := stream.bind (·.field "network")
    security := stream.bind (·.field "security")
    flow := (items (inbound.path "settings" "clients")).head?.bind (·.field "flow")
    serverName := reality.elim (tls.bind (·.field "serverName")) fun r => (items (r.field "serverNames")).head?
    shortId := reality.bind fun r => (items (r.field "shortIds")).head?
    grpcService := (stream.bind (·.field "grpcSettings")).bind (·.field "serviceName")
    cipher := inbound.path "settings" "method" }

/-- The server an outbound dials. -/
def dialed (out : Outbound) : Option Json :=
  (items ((Json.obj out).path "settings" "vnext") ++ items ((Json.obj out).path "settings" "servers")).head?

def dialedCredential (out : Outbound) : Credential :=
  match dialed out with
  | none => ⟨.uuid, []⟩
  | some server =>
    match (items (server.field "users")).head? with
    | some user => ⟨.uuid, textField user "id"⟩
    | none => ⟨.password, textField server "password"⟩

def realityPublicKey (out : Outbound) : Option Json :=
  ((out.lookup "streamSettings").bind (·.field "realitySettings")).bind (·.field "publicKey")

def Endpoint.ofOutbound (out : Outbound) : Endpoint :=
  let stream := out.lookup "streamSettings"
  let reality := stream.bind (·.field "realitySettings")
  let tls := stream.bind (·.field "tlsSettings")
  let server := dialed out
  { protocol := textField (.obj out) "protocol"
    port := server.bind (·.field "port")
    credentials := [dialedCredential out]
    network := stream.bind (·.field "network")
    security := stream.bind (·.field "security")
    flow := (server.bind fun s => (items (s.field "users")).head?).bind (·.field "flow")
    serverName := reality.elim (tls.bind (·.field "serverName")) (·.field "serverName")
    shortId := reality.bind (·.field "shortId")
    grpcService := (stream.bind (·.field "grpcSettings")).bind (·.field "serviceName")
    cipher := server.bind (·.field "method") }

/-- The characters of a host name. -/
def hostChar (c : Char) : Bool := c.isAlphanum || c = '.' || c = '-'

section
variable {c d : Char} {host : Text} {port : Int}

theorem shouldEscape_hostChar (own : hostChar c = true) : shouldEscape .host c = false := by
  rw [hostChar, Bool.or_eq_true, Bool.or_eq_true] at own
  rcases own with (letter | dot) | dash
  · rw [shouldEscape, if_pos letter]
  · rw [of_decide_eq_true dot]
    decide
  · rw [of_decide_eq_true dash]
    decide

theorem isDigit_of_mem_itoa (natural : 0 ≤ port) (member : d ∈ Text.itoa port) : d.isDigit = true := by
  obtain ⟨n, rfl⟩ := Int.eq_ofNat_of_zero_le natural
  exact Text.isDigit_of_mem_decimal member

theorem cutLast_hostPort (natural : 0 ≤ port) (host : Text) :
    Text.cutLast ':' (hostPort host port) = some (host, Text.itoa port) := by
  refine Text.cutLast_eq_some_iff.mpr ⟨rfl, fun member => ?_⟩
  exact absurd (isDigit_of_mem_itoa natural member) (by decide)

theorem hostOnly_hostPort (natural : 0 ≤ port) (host : Text) : hostOnly (hostPort host port) = host := by
  rw [hostOnly, cutLast_hostPort natural]
  rfl

theorem atoi_itoa (natural : 0 ≤ port) (machine : port ≤ 2 ^ 63 - 1) : Text.atoi (Text.itoa port) = some port := by
  rw [Text.atoi, Text.readSigned_itoa, Option.filter_eq_some_iff]
  exact ⟨rfl, decide_eq_true ⟨by omega, by omega⟩⟩

theorem portFromHost_hostPort (natural : 0 ≤ port) (machine : port ≤ 2 ^ 63 - 1) (host : Text) :
    portFromHost (hostPort host port) = port := by
  rw [portFromHost, cutLast_hostPort natural, Option.bind_some, atoi_itoa natural machine]
  rfl

/-- A URL to a host name is read back, whatever its user, query and fragment are. -/
theorem valid_hostPort (names : ∀ c ∈ host, hostChar c = true) (natural : 0 ≤ port) (user : Option Text) (v : Values)
    (fragment : Text) : URL.Valid ⟨user, hostPort host port, v.encode, fragment⟩ where
  host_plain c member := by
    rcases List.mem_append.mp member with inName | later
    · exact shouldEscape_hostChar (names c inName)
    · rcases List.mem_cons.mp later with rfl | digit
      · decide
      · refine shouldEscape_hostChar ?_
        rw [hostChar, Char.isAlphanum, isDigit_of_mem_itoa natural digit, Bool.or_true, Bool.true_or, Bool.true_or]
  host_name member := by
    rcases List.mem_append.mp member with inName | later
    · exact absurd (names _ inName) (by decide)
    · rcases List.mem_cons.mp later with sep | digit
      · cases sep
      · exact absurd (isDigit_of_mem_itoa natural digit) (by decide)
  port name digits found := by
    rw [cutLast_hostPort natural] at found
    cases found
    exact List.all_eq_true.mpr fun d member => isDigit_of_mem_itoa natural member
  query_plain := (encode_plain v).1
  query_single := (encode_plain v).2

section
variable {uuid password name : Text} {query : List (String × Text)} (marshal : List (String × Text) → Text)
  (literal : Text → Option Text)

theorem trimSpace_of_printable {t : Text} (printable : ∀ c ∈ t, 0x20 < c.toNat ∧ c.toNat < 0x7f) :
    Text.trimSpace t = t :=
  (Text.trimmed_of_no_space fun c member => isSpace_of_toNat (printable c member).1 (printable c member).2).trimSpace_eq

theorem trimSpace_url {scheme : Text} {u : URL} (plain : ∀ c ∈ scheme, 0x20 < c.toNat ∧ c.toNat < 0x7f) (valid : u.Valid) :
    Text.trimSpace (scheme ++ u.toText) = scheme ++ u.toText := by
  refine trimSpace_of_printable fun c member => ?_
  rcases List.mem_append.mp member with inScheme | inside
  · exact plain c inScheme
  · exact toNat_of_mem_toText valid inside

theorem lookup_queryValues (query : List (String × Text)) (key : String) :
    (queryValues query).lookup key.toList = query.lookup key := by
  induction query with
  | nil => rfl
  | cons pair query ih =>
    rw [queryValues, List.map_cons, List.lookup_cons, List.lookup_cons, ← queryValues, ih]
    have same : (key.toList == pair.1.toList) = (key == pair.1) := by
      rw [Bool.eq_iff_iff, beq_iff_eq, beq_iff_eq, String.toList_inj]
    rw [same]

/-- What a link says under a key is what was put there. -/
theorem get_queryValues (distinct : (query.map Prod.fst).Nodup) (key : String) {value : Text}
    (set : query.lookup key = some value) : (parseQuery (queryValues query).encode).get key.toList = value := by
  have keys : ((queryValues query).map Prod.fst).Nodup := by
    rw [queryValues, List.map_map]
    have texts := distinct.map (f := String.toList) fun a b same => String.toList_inj.mp same
    rwa [List.map_map] at texts
  rw [get_parseQuery_encode keys, Values.get, lookup_queryValues, set]
  rfl

theorem parseClientLink_vless (names : ∀ c ∈ host, hostChar c = true) (natural : 0 ≤ port) (machine : port ≤ 2 ^ 63 - 1)
    (filled : uuid ≠ []) :
    parseClientLink literal ((ShareLink.vless uuid host port query name).toText marshal) =
      some (vlessSpec uuid host port (parseQuery (queryValues query).encode)) := by
  have valid := valid_hostPort names natural (some uuid) (queryValues query) name
  have text : Text.trimSpace ((ShareLink.vless uuid host port query name).toText marshal) = "vless://".toList ++ _ :=
    trimSpace_url (by decide) valid
  rw [parseClientLink, text, parseScheme_vless, parseVLESS, parse_toText literal valid rfl]
  simp only [Option.bind_eq_bind, Option.bind_some, Option.getD_some, if_neg filled, hostOnly_hostPort natural,
    portFromHost_hostPort natural machine]

theorem parseClientLink_trojan (names : ∀ c ∈ host, hostChar c = true) (natural : 0 ≤ port)
    (machine : port ≤ 2 ^ 63 - 1) :
    parseClientLink literal ((ShareLink.trojan password host port query name).toText marshal) =
      some ⟨"trojan-tcp-tls".toList, host, [("password", password), ("port", Text.itoa port),
        ("domain", (parseQuery (queryValues query).encode).get "sni".toList)]⟩ := by
  have valid := valid_hostPort names natural (some password) (queryValues query) name
  have text : Text.trimSpace ((ShareLink.trojan password host port query name).toText marshal) = "trojan://".toList ++ _ :=
    trimSpace_url (by decide) valid
  rw [parseClientLink, text, parseScheme_trojan, parseTrojan, parse_toText literal valid rfl]
  simp only [Option.bind_eq_bind, Option.bind_some, Option.getD_some, hostOnly_hostPort natural,
    portFromHost_hostPort natural machine]
  rfl

theorem decodeMaybe_encode (t : Text) : decodeMaybe (Base64.encode (utf8 t)) = some t := by
  rw [decodeMaybe, if_neg (Base64.not_mem_encode (by decide +kernel) _), Base64.decode_encode]
  exact ofUtf8_utf8 t

/-- The name may be any text: it is cut off. -/
theorem parseClientLink_shadowsocks {method : Text} (names : ∀ c ∈ host, hostChar c = true) (natural : 0 ≤ port)
    (machine : port ≤ 2 ^ 63 - 1) (single : ':' ∉ method) :
    parseClientLink literal ((ShareLink.shadowsocks method password host port name).toText marshal) =
      some ⟨"shadowsocks-2022".toList, host,
        [("ss_method", method), ("password", password), ("port", Text.itoa port)]⟩ := by
  let userinfo := Base64.encode (utf8 (method ++ ':' :: password))
  have inHost : ∀ d ∈ hostPort host port, hostChar d = true ∨ d = ':' := by
    intro d member
    rcases List.mem_append.mp member with inName | later
    · exact .inl (names d inName)
    · rcases List.mem_cons.mp later with rfl | digit
      · exact .inr rfl
      · refine .inl ?_
        rw [hostChar, Char.isAlphanum, isDigit_of_mem_itoa natural digit, Bool.or_true, Bool.true_or, Bool.true_or]
  have trimmed : Text.trimSpace ((ShareLink.shadowsocks method password host port name).toText marshal) =
      "ss://".toList ++ (userinfo ++ '@' :: hostPort host port) ++ '#' :: Text.trimRight name :=
    Text.trimSpace_append_cons (by decide) _ _
  have first : Text.cut '#' ((userinfo ++ '@' :: hostPort host port) ++ '#' :: Text.trimRight name) =
      some (userinfo ++ '@' :: hostPort host port, Text.trimRight name) := by
    refine Text.cut_eq_some_iff.mpr ⟨rfl, fun member => ?_⟩
    rcases List.mem_append.mp member with coded | later
    · exact Base64.not_mem_encode (by decide +kernel) _ coded
    · rcases List.mem_cons.mp later with mark | inside
      · cases mark
      · rcases inHost _ inside with own | sep
        · exact absurd own (by decide)
        · cases sep
  have last : Text.cutLast '@' (userinfo ++ '@' :: hostPort host port) = some (userinfo, hostPort host port) := by
    refine Text.cutLast_eq_some_iff.mpr ⟨rfl, fun inside => ?_⟩
    rcases inHost _ inside with own | sep
    · exact absurd own (by decide)
    · cases sep
  have parts : Text.cut ':' (method ++ ':' :: password) = some (method, password) :=
    Text.cut_eq_some_iff.mpr ⟨rfl, single⟩
  rw [parseClientLink, trimmed, List.append_assoc, parseScheme_ss, parseSS, first]
  simp only [Option.map_some, Option.getD_some, last, Option.bind_eq_bind, Option.bind_some, userinfo, decodeMaybe_encode,
    parts, hostOnly_hostPort natural, portFromHost_hostPort natural machine]
  rfl

end

section
variable {p : Params} {value default : Text}

theorem Params.get_of_lookup (key : String) (found : p.lookup key = some value) (filled : value ≠ []) :
    p.get key default = value := by
  rw [Params.get, found]
  exact if_pos filled

theorem Params.get_nil_of_lookup (key : String) (found : p.lookup key = some value) : p.get key [] = value := by
  rw [Params.get, found]
  by_cases empty : value = []
  · rw [empty]
    rfl
  · exact if_pos empty

theorem Params.get_ne_nil (filled : default ≠ []) (p : Params) (key : String) : p.get key default ≠ [] := by
  unfold Params.get
  split
  · split
    · assumption
    · exact filled
  · exact filled

theorem portOf_itoa (found : p.lookup "port" = some (Text.itoa port)) (natural : 0 ≤ port)
    (machine : port ≤ 2 ^ 63 - 1) : portOf p default = port := by
  have filled : Text.itoa port ≠ [] := by
    intro empty
    have back := atoi_itoa natural machine
    rw [empty] at back
    cases back
  rw [portOf, Params.get_of_lookup _ found filled, Text.atoiValue_itoa (by omega) machine]

end

/-- The relay that a link stands for dials the inbound. -/
structure Dials (s : Builtin) (p : Params) (inbound : Json) (link : ShareLink) (spec : RelaySpec) (out : Outbound) : Prop
    where
  strategy : spec.strategy = s.name
  built : buildRelayOutbound spec = some out
  agrees : Endpoint.ofOutbound out = Endpoint.ofInbound inbound
  publicKey : s = .realityVlessTCP → realityPublicKey out = some (.str (p.get "reality_pub" []))
  host : link.host = some spec.host
  address : (dialed out).bind (·.field "address") = some (.str spec.host)

section
variable {p : Params} {c : Client} {inbound : Json} (marshal : List (String × Text) → Text) (literal : Text → Option Text)

/-- A value that is there does not depend on the default. -/
theorem Params.get_default {p : Params} {key : String} (filled : p.get key [] ≠ []) (default : Text) :
    p.get key default = p.get key [] := by
  unfold Params.get at filled ⊢
  split
  · rename_i value found
    rw [found] at filled
    have some : value ≠ [] := fun empty => filled (by simp [empty])
    rw [if_pos some, if_pos some]
  · rename_i found
    rw [found] at filled
    exact absurd rfl filled

/-- How a link of a strategy is read. -/
def ReadsBack (s : Builtin) (p : Params) (c : Client) (host : Text) : Prop :=
  ∃ link spec out, s.clientLink p c host = some link ∧ parseClientLink literal (link.toText marshal) = some spec ∧
    Dials s p (s.inboundOf p [c]) link spec out

theorem portOf_machine (p : Params) (default : Text) : portOf p default ≤ 2 ^ 63 - 1 := (Text.atoiValue_bounds _).2

theorem readsBack_realityVlessTCP (names : ∀ c ∈ host, hostChar c = true)
    (natural : 0 ≤ portOf p ['4', '4', '3']) (filled : c.uuid ≠ []) (pub : p.get "reality_pub" [] ≠ []) :
    ReadsBack marshal literal .realityVlessTCP p c host := by
  let port := portOf p ['4', '4', '3']
  have machine : port ≤ 2 ^ 63 - 1 := portOf_machine p _
  let query := [("security", "reality".toList), ("encryption", "none".toList), ("type", "tcp".toList),
    ("sni", p.get "sni" []), ("fp", "chrome".toList), ("pbk", p.get "reality_pub" []), ("sid", p.get "reality_sid" []),
    ("flow", Builtin.visionFlow)]
  let params : Params := [("uuid", c.uuid), ("port", Text.itoa port), ("sni", p.get "sni" []),
    ("reality_pub", p.get "reality_pub" []), ("reality_sid", p.get "reality_sid" [])]
  have spec : vlessSpec c.uuid host port (parseQuery (queryValues query).encode) =
      ⟨"reality-vless-tcp".toList, host, params⟩ := by
    have distinct : (query.map Prod.fst).Nodup :=
      (by decide : ["security", "encryption", "type", "sni", "fp", "pbk", "sid", "flow"].Nodup)
    rw [vlessSpec, get_queryValues distinct "security" rfl, if_pos rfl, get_queryValues distinct "sni" rfl,
      get_queryValues distinct "pbk" rfl, get_queryValues distinct "sid" rfl]
    rfl
  have dialed : portOf params ['4', '4', '3'] = port := portOf_itoa rfl natural machine
  have same : ∀ key value, params.lookup key = some value → params.get key [] = value := fun key _ =>
    Params.get_nil_of_lookup key
  refine ⟨.vless c.uuid host port query (linkName c host), ⟨"reality-vless-tcp".toList, host, params⟩, _, if_neg pub,
    (parseClientLink_vless marshal literal names natural machine filled).trans (congrArg some spec),
    rfl, rfl, ?_, fun _ => ?_, rfl, rfl⟩
  · change Endpoint.mk "vless".toList (some (.int (portOf params ['4', '4', '3']))) [⟨.uuid, params.get "uuid" []⟩]
      (some (.text "tcp")) (some (.text "reality")) (some (.str Builtin.visionFlow)) (some (.str (params.get "sni" [])))
      (some (.str (params.get "reality_sid" []))) none none = _
    rw [dialed, same "uuid" _ rfl, same "sni" _ rfl, same "reality_sid" _ rfl]
    rfl
  · change some (Json.str (params.get "reality_pub" [])) = _
    rw [same "reality_pub" _ rfl]

section
variable (names : ∀ d ∈ p.get "domain" [], hostChar d = true) (named : p.get "domain" [] ≠ [])
  (natural : 0 ≤ portOf p ['4', '4', '3'])
include names named natural

theorem readsBack_vlessVisionTLS (filled : c.uuid ≠ []) (host : Text) :
    ReadsBack marshal literal .vlessVisionTLS p c host := by
  let port := portOf p ['4', '4', '3']
  have machine : port ≤ 2 ^ 63 - 1 := portOf_machine p _
  let domain := p.get "domain" []
  let query := [("security", "tls".toList), ("encryption", "none".toList), ("type", "tcp".toList), ("sni", domain),
    ("flow", Builtin.visionFlow)]
  let params : Params := [("uuid", c.uuid), ("port", Text.itoa port), ("sni", domain), ("domain", domain)]
  have link : Builtin.clientLink .vlessVisionTLS p c host = some (.vless c.uuid domain port query (linkName c host)) := by
    rw [Builtin.clientLink, Params.get_default named]
    rfl
  have spec : vlessSpec c.uuid domain port (parseQuery (queryValues query).encode) =
      ⟨"vless-vision-tls".toList, domain, params⟩ := by
    have distinct : (query.map Prod.fst).Nodup :=
      (by decide : ["security", "encryption", "type", "sni", "flow"].Nodup)
    rw [vlessSpec, get_queryValues distinct "security" rfl, if_neg (by decide), get_queryValues distinct "type" rfl,
      if_neg (by decide), get_queryValues distinct "sni" rfl]
    rfl
  have dialed : portOf params ['4', '4', '3'] = port := portOf_itoa rfl natural machine
  refine ⟨_, ⟨"vless-vision-tls".toList, domain, params⟩, _, link,
    (parseClientLink_vless marshal literal names natural machine filled).trans (congrArg some spec),
    rfl, rfl, ?_, (fun other => by cases other), rfl, rfl⟩
  change Endpoint.mk "vless".toList (some (.int (portOf params ['4', '4', '3']))) [⟨.uuid, params.get "uuid" []⟩]
    (some (.text "tcp")) (some (.text "tls")) (some (.str Builtin.visionFlow)) (some (.str (params.get "domain" domain)))
    none none none = _
  rw [dialed, Params.get_nil_of_lookup "uuid" (rfl : params.lookup "uuid" = some c.uuid),
    Params.get_of_lookup "domain" (rfl : params.lookup "domain" = some domain) named]
  rfl

theorem readsBack_vlessGRPCTLS (filled : c.uuid ≠ []) (host : Text) :
    ReadsBack marshal literal .vlessGRPCTLS p c host := by
  let port := portOf p ['4', '4', '3']
  have machine : port ≤ 2 ^ 63 - 1 := portOf_machine p _
  let domain := p.get "domain" []
  let service := p.get "grpc_service" "grpc".toList
  let query := [("security", "tls".toList), ("encryption", "none".toList), ("type", "grpc".toList),
    ("serviceName", service), ("sni", domain)]
  let params : Params := [("uuid", c.uuid), ("port", Text.itoa port), ("sni", domain), ("domain", domain),
    ("grpc_service", service)]
  have link : Builtin.clientLink .vlessGRPCTLS p c host = some (.vless c.uuid domain port query (linkName c host)) := by
    rw [Builtin.clientLink, Params.get_default named]
    rfl
  have spec : vlessSpec c.uuid domain port (parseQuery (queryValues query).encode) =
      ⟨"vless-grpc-tls".toList, domain, params⟩ := by
    have distinct : (query.map Prod.fst).Nodup :=
      (by decide : ["security", "encryption", "type", "serviceName", "sni"].Nodup)
    rw [vlessSpec, get_queryValues distinct "security" rfl, if_neg (by decide), get_queryValues distinct "type" rfl,
      if_pos rfl, get_queryValues distinct "sni" rfl, get_queryValues distinct "serviceName" rfl]
    rfl
  have dialed : portOf params ['4', '4', '3'] = port := portOf_itoa rfl natural machine
  have offered : service ≠ [] := Params.get_ne_nil (by decide) p _
  refine ⟨_, ⟨"vless-grpc-tls".toList, domain, params⟩, _, link,
    (parseClientLink_vless marshal literal names natural machine filled).trans (congrArg some spec),
    rfl, rfl, ?_, (fun other => by cases other), rfl, rfl⟩
  change Endpoint.mk "vless".toList (some (.int (portOf params ['4', '4', '3']))) [⟨.uuid, params.get "uuid" []⟩]
    (some (.text "grpc")) (some (.text "tls")) none (some (.str (params.get "domain" domain)))
    none (some (.str (params.get "grpc_service" "grpc".toList))) none = _
  rw [dialed, Params.get_nil_of_lookup "uuid" (rfl : params.lookup "uuid" = some c.uuid),
    Params.get_of_lookup "domain" (rfl : params.lookup "domain" = some domain) named,
    Params.get_of_lookup "grpc_service" (rfl : params.lookup "grpc_service" = some service) offered]
  rfl

theorem readsBack_trojanTCPTLS (host : Text) : ReadsBack marshal literal .trojanTCPTLS p c host := by
  let port := portOf p ['4', '4', '3']
  have machine : port ≤ 2 ^ 63 - 1 := portOf_machine p _
  let domain := p.get "domain" []
  let query := [("security", "tls".toList), ("type", "tcp".toList), ("sni", domain)]
  let params : Params := [("password", c.password), ("port", Text.itoa port), ("domain", domain)]
  have link : Builtin.clientLink .trojanTCPTLS p c host =
      some (.trojan c.password domain port query (linkName c host)) := by
    rw [Builtin.clientLink, Params.get_default named]
    rfl
  have sni : (parseQuery (queryValues query).encode).get "sni".toList = domain := by
    have distinct : (query.map Prod.fst).Nodup := (by decide : ["security", "type", "sni"].Nodup)
    exact get_queryValues distinct "sni" rfl
  have read : parseClientLink literal ((ShareLink.trojan c.password domain port query (linkName c host)).toText marshal) = _ :=
    parseClientLink_trojan marshal literal names natural machine
  rw [sni] at read
  have dialed : portOf params ['4', '4', '3'] = port := portOf_itoa rfl natural machine
  refine ⟨_, ⟨"trojan-tcp-tls".toList, domain, params⟩, _, link, read, rfl, rfl, ?_, (fun other => by cases other), rfl,
    rfl⟩
  change Endpoint.mk "trojan".toList (some (.int (portOf params ['4', '4', '3'])))
    [⟨.password, params.get "password" []⟩] (some (.text "tcp")) (some (.text "tls")) none
    (some (.str (params.get "domain" domain))) none none none = _
  rw [dialed, Params.get_nil_of_lookup "password" (rfl : params.lookup "password" = some c.password),
    Params.get_of_lookup "domain" (rfl : params.lookup "domain" = some domain) named]
  rfl

end

theorem readsBack_shadowsocks2022 (names : ∀ c ∈ host, hostChar c = true)
    (natural : 0 ≤ portOf p ['8', '3', '8', '8']) (single : ':' ∉ p.get "ss_method" Builtin.ssMethod) :
    ReadsBack marshal literal .shadowsocks2022 p c host := by
  let port := portOf p ['8', '3', '8', '8']
  have machine : port ≤ 2 ^ 63 - 1 := portOf_machine p _
  let method := p.get "ss_method" Builtin.ssMethod
  let params : Params := [("ss_method", method), ("password", c.password), ("port", Text.itoa port)]
  have dialed : portOf params ['4', '4', '3'] = port := portOf_itoa rfl natural machine
  have chosen : method ≠ [] := Params.get_ne_nil (by decide +kernel) p _
  refine ⟨_, ⟨"shadowsocks-2022".toList, host, params⟩, _, rfl,
    parseClientLink_shadowsocks marshal literal names natural machine single, rfl, rfl, ?_,
    (fun other => by cases other), rfl, rfl⟩
  change Endpoint.mk "shadowsocks".toList (some (.int (portOf params ['4', '4', '3'])))
    [⟨.password, params.get "password" []⟩] none none none none none none
    (some (.str (params.get "ss_method" Builtin.ssMethod))) = _
  rw [dialed, Params.get_nil_of_lookup "password" (rfl : params.lookup "password" = some c.password),
    Params.get_of_lookup "ss_method" (rfl : params.lookup "ss_method" = some method) chosen]
  rfl

/-- A link that the panel hands out can be pasted as a relay, and the relay dials
the inbound it was made for. -/
theorem parseClientLink_clientLink {s : Builtin} (dialable : s ≠ .vmessWSTLS) (built : s.buildInbound p [c] = .ok inbound)
    (names : host ≠ [] ∧ ∀ d ∈ host, hostChar d = true) (domains : ∀ d ∈ p.get "domain" [], hostChar d = true)
    (natural : 0 ≤ portOf p s.defaultPort) (pub : s = .realityVlessTCP → p.get "reality_pub" [] ≠ [])
    (cipher : s = .shadowsocks2022 → ':' ∉ p.get "ss_method" Builtin.ssMethod) (filled : c.cred s.cred ≠ []) :
    ∃ link spec out, s.clientLink p c host = some link ∧ parseClientLink literal (link.toText marshal) = some spec ∧
      Dials s p inbound link spec out := by
  obtain ⟨complete, _, rfl⟩ := Builtin.of_buildInbound built
  have domain : ⟨"domain", [], true⟩ ∈ s.params → p.get "domain" [] ≠ [] := fun listed =>
    get_of_requireParams complete listed rfl
  cases s with
  | realityVlessTCP => exact readsBack_realityVlessTCP marshal literal names.2 natural filled (pub rfl)
  | vlessVisionTLS => exact readsBack_vlessVisionTLS marshal literal domains (domain (by decide)) natural filled host
  | vmessWSTLS => exact absurd rfl dialable
  | trojanTCPTLS => exact readsBack_trojanTCPTLS marshal literal domains (domain (by decide)) natural host
  | shadowsocks2022 => exact readsBack_shadowsocks2022 marshal literal names.2 natural (cipher rfl)
  | vlessGRPCTLS => exact readsBack_vlessGRPCTLS marshal literal domains (domain (by decide)) natural filled host

end

end

def sharedParams : Params :=
  [("port", "8443".toList), ("sni", "www.example.com".toList), ("dest", "www.example.com:443".toList),
    ("reality_priv", "cHJpdg".toList), ("reality_pub", "cHVi".toList), ("reality_sid", "aabbccdd".toList)]

def sharedClient : Client := ⟨"ann #1 @home".toList, "b831381d-6324-4d53-ad4f-8cda48b30811".toList, []⟩

theorem parseClientLink_clientLink_reality :
    ∃ link spec out, Builtin.clientLink .realityVlessTCP sharedParams sharedClient "relay.abroad".toList = some link ∧
      parseClientLink (fun _ => none) (link.toText fun _ => []) = some spec ∧
      Dials .realityVlessTCP sharedParams (Builtin.inboundOf .realityVlessTCP sharedParams [sharedClient]) link spec out :=
  parseClientLink_clientLink (fun _ => []) (fun _ => none) (by decide) rfl (by decide +kernel) (by decide +kernel)
    (by decide +kernel) (fun _ => by decide +kernel) nofun (by decide +kernel)

end Protean.Xray
