import Protean.BruteForce.Rejected
import Protean.Split

namespace Protean.BruteForce

/-- What the login handlers read of a request besides its body: the address of
the connection and the values of `X-Forwarded-For`. -/
structure Request where
  remoteAddr : Text
  forwardedFor : List Text
  deriving DecidableEq, Repr

/-- `net.SplitHostPort`. -/
def splitHostPort (hostport : Text) : Option (Text × Text) :=
  match Text.cutLast ':' hostport with
  | none => none
  | some (host, port) =>
    match hostport with
    | '[' :: rest =>
      -- the first bracket that closes has to stand just before the last colon
      match Text.cut ']' rest with
      | some (inner, ':' :: tail) =>
        if tail = port ∧ '[' ∉ rest ∧ ']' ∉ tail then some (inner, port) else none
      | _ => none
    | _ => if ':' ∈ host ∨ '[' ∈ hostport ∨ ']' ∈ hostport then none else some (host, port)

def clientIP (trustProxy : Bool) (r : Request) : Text :=
  let xff := r.forwardedFor.headD []
  if trustProxy ∧ xff ≠ [] then Text.trimSpace ((xff.splitOn ',').headD [])
  else
    match splitHostPort r.remoteAddr with
    | none => r.remoteAddr
    | some (host, _) => host

inductive LoginError
  | accountDisabled
  | portalAccessDenied
  | internalAuthDisabled
  | methodDisabled
  | noGroupMatch
  | other
  deriving DecidableEq, Repr

/-- The reason under which `apiLogin` records a failure. -/
def LoginError.reason : LoginError → Text
  | .accountDisabled => "account_disabled".toList
  | .portalAccessDenied => "portal_access_denied".toList
  | .internalAuthDisabled | .methodDisabled => "method_disabled".toList
  | .noGroupMatch => "no_group_match".toList
  | .other => "bad_password".toList

/-- The reason under which `apiLogin2FA` records a failure. -/
def LoginError.reason2FA : LoginError → Text
  | .accountDisabled => "account_disabled".toList
  | .portalAccessDenied => "portal_access_denied".toList
  | _ => "bad_totp".toList

/-- What the guard sees of a login: the login itself says whether a second
factor is to come. -/
def apiLogin (trustProxy : Bool) (r : Request) (username : Text) : Except LoginError Bool → Event
  | .error e => .login (clientIP trustProxy r) (Text.trimSpace username) (.failure e.reason)
  | .ok true => .login (clientIP trustProxy r) (Text.trimSpace username) .pending
  | .ok false => .login (clientIP trustProxy r) (Text.trimSpace username) .success

/-- The second step, with the name from the token of the first. -/
def apiLogin2FA (trustProxy : Bool) (r : Request) (username : Text) : Except LoginError Unit → Event
  | .error e => .login (clientIP trustProxy r) username (.failure e.reason2FA)
  | .ok () => .login (clientIP trustProxy r) username .success

/-- The address of a peer as a proxy writes it. -/
structure PeerAddress where
  text : Text
  nonempty : text ≠ []
  plain : ∀ c ∈ text, c ≠ ',' ∧ Text.isSpace c = false

/-- `$proxy_add_x_forwarded_for`: the values that were sent, and the peer. -/
def addForwardedFor (peer : PeerAddress) (sent : List Text) : Text :=
  (sent.map (· ++ ", ".toList)).flatten ++ peer.text

/-- The request that reaches the panel through the proxy. -/
def throughProxy (remoteAddr : Text) (peer : PeerAddress) (sent : List Text) : Request :=
  ⟨remoteAddr, [addForwardedFor peer sent]⟩

/-- The address a client names first, its own if it sends no header. -/
def named (peer : PeerAddress) : List Text → Text
  | [] => peer.text
  | value :: _ => Text.trimSpace (value.takeWhile (· ≠ ','))

theorem clientIP_throughProxy (remoteAddr : Text) (peer : PeerAddress) (sent : List Text) :
    clientIP true (throughProxy remoteAddr peer sent) = named peer sent := by
  have present : addForwardedFor peer sent ≠ [] := by
    intro empty
    exact peer.nonempty (List.append_eq_nil_iff.mp empty).2
  simp only [clientIP, throughProxy, List.headD_cons, present, ne_eq, not_false_eq_true, and_self, if_true,
    Text.headD_splitOn]
  cases sent with
  | nil =>
    have whole : peer.text.takeWhile (· ≠ ',') = peer.text :=
      List.takeWhile_eq_self_iff.mpr (Text.ne_sep_of_not_mem fun member => (peer.plain _ member).1 rfl)
    rw [addForwardedFor, List.map_nil, List.flatten_nil, List.nil_append, whole, named]
    exact (Text.trimmed_of_no_space fun c member => (peer.plain c member).2).trimSpace_eq
  | cons value values =>
    have shape : addForwardedFor peer (value :: values) = value ++ ',' :: ' ' :: addForwardedFor peer values := by
      simp [addForwardedFor]
    rw [shape, Text.takeWhile_append_cons, named]

/-- Two requests of one peer count under the same address exactly when the
client names the same address first in both. -/
theorem client_address_iff (remoteAddr : Text) (peer : PeerAddress) (sent sent' : List Text) :
    ((∀ username result, apiLogin true (throughProxy remoteAddr peer sent) username result =
        apiLogin true (throughProxy remoteAddr peer sent') username result) ∧
      ∀ username result, apiLogin2FA true (throughProxy remoteAddr peer sent) username result =
        apiLogin2FA true (throughProxy remoteAddr peer sent') username result) ↔
      named peer sent = named peer sent' := by
  constructor
  · intro same
    have success := same.2 [] (.ok ())
    simp only [apiLogin2FA, clientIP_throughProxy, Event.login.injEq] at success
    exact success.1
  · intro same
    refine ⟨fun username result => ?_, fun username result => ?_⟩
    · simp only [apiLogin, clientIP_throughProxy, same]
    · simp only [apiLogin2FA, clientIP_throughProxy, same]

def samplePeer : PeerAddress := ⟨"203.0.113.9".toList, by decide, by decide⟩

def sampleRequest (sent : List Text) : Request := throughProxy "127.0.0.1:40000".toList samplePeer sent

/-- Three wrong passwords of the peer, without a header. -/
def sampleFailures : List (Int × Event) :=
  [0, second, 2 * second].map fun now => (now, apiLogin true (sampleRequest []) "alice".toList (.error .other))

/-- The address of the peer is banned then, and with a header of its own it
gets in. -/
theorem header_evades_ban :
    clientIP true (sampleRequest []) = "203.0.113.9".toList ∧
    clientIP true (sampleRequest ["1.2.3.4".toList]) = "1.2.3.4".toList ∧
    rejects sampleGuard (Run.after (step sampleGuard) State.initial sampleFailures)
      (3 * second, apiLogin true (sampleRequest []) "bob".toList (.ok false)) = true ∧
    rejects sampleGuard (Run.after (step sampleGuard) State.initial sampleFailures)
      (3 * second, apiLogin true (sampleRequest ["1.2.3.4".toList]) "bob".toList (.ok false)) = false := by
  decide +kernel

end Protean.BruteForce
