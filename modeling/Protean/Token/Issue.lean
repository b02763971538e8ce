import Protean.Base64
import Protean.Split

namespace Protean.Token

/-- `time.Now().Add(ttl).Unix()`, in seconds and in 64 bits. -/
def expiry (ttl now : Int) : Int := (now + ttl).bmod (2 ^ 64)

def PendingAuth.ttl : Int := 5 * 60

def OIDCState.ttl : Int := 10 * 60

section
variable (mac : Text → Vector UInt8 32)

/-- The three issuers share the secret: `mac` is HMAC-SHA256 under it. -/
def sign (payload : Text) : Text := Base64.encode (mac payload).toList

def signed (payload : Text) : Text := payload ++ '.' :: sign mac payload

def PendingAuth.payload (now : Int) (username : List UInt8) : Text :=
  Base64.encode username ++ '.' :: Text.itoa (expiry PendingAuth.ttl now)

def PendingAuth.issue (now : Int) (username : List UInt8) : Text := signed mac (PendingAuth.payload now username)

/-- The signature is what follows the last dot, the name what comes before the first. -/
def PendingAuth.verify (now : Int) (token : Text) : Option (List UInt8) := do
  let (payload, sig) ← Text.cutLast '.' token
  guard (sig = sign mac payload)
  let (userB64, expStr) ← Text.cut '.' payload
  let exp ← Text.atoi expStr
  guard (now ≤ exp)
  Base64.decode userB64

def OIDCState.payload (now : Int) (verifier nonce : List UInt8) : Text :=
  ['.'].intercalate [Base64.encode verifier, Base64.encode nonce, Text.itoa (expiry OIDCState.ttl now)]

def OIDCState.issue (now : Int) (verifier nonce : List UInt8) : Text := signed mac (OIDCState.payload now verifier nonce)

def OIDCState.verify (now : Int) (token : Text) : Option (List UInt8 × List UInt8) :=
  match token.splitOn '.' with
  | [verifierB64, nonceB64, expStr, sig] => do
    guard (sig = sign mac (['.'].intercalate [verifierB64, nonceB64, expStr]))
    let exp ← Text.atoi expStr
    guard (now ≤ exp)
    let verifier ← Base64.decode verifierB64
    let nonce ← Base64.decode nonceB64
    return (verifier, nonce)
  | _ => none

def CSRF.payload (nonce : Vector UInt8 16) : Text := Base64.encode nonce.toList

/-- The nonce is read from the system's random source, which may fail. -/
def CSRF.issue : Except Text (Vector UInt8 16) → Except Text Text
  | .error e => .error ("read random bytes: ".toList ++ e)
  | .ok nonce => .ok (signed mac (CSRF.payload nonce))

/-- The signature is all that follows the first dot. -/
def CSRF.valid (token : Text) : Bool :=
  match Text.cut '.' token with
  | none => false
  | some (nonce, sig) => nonce ≠ [] ∧ sig ≠ [] ∧ sig = sign mac nonce

end

section
variable {mac : Text → Vector UInt8 32}

theorem dot_not_mem_encode (bs : List UInt8) : '.' ∉ Base64.encode bs := Base64.not_mem_encode (by decide) bs

theorem dot_not_mem_sign (payload : Text) : '.' ∉ sign mac payload := dot_not_mem_encode _

theorem sign_ne_nil (payload : Text) : sign mac payload ≠ [] := by
  intro empty
  have bytes := Base64.encode_eq_nil_iff.mp empty
  have length := (mac payload).length_toList
  rw [bytes] at length
  cases length

theorem expiry_bounds (ttl now : Int) : -2 ^ 63 ≤ expiry ttl now ∧ expiry ttl now < 2 ^ 63 := by
  have lower := Int.le_bmod (x := now + ttl) (m := 2 ^ 64) (by decide)
  have upper := Int.bmod_lt (x := now + ttl) (m := 2 ^ 64) (by decide)
  unfold expiry
  omega

theorem atoi_expiry (ttl now : Int) : Text.atoi (Text.itoa (expiry ttl now)) = some (expiry ttl now) := by
  rw [Text.atoi, Text.readSigned_itoa]
  exact Option.filter_some_pos (decide_eq_true (expiry_bounds ttl now))

theorem OIDCState.payload_eq (now : Int) (verifier nonce : List UInt8) :
    OIDCState.payload now verifier nonce =
      Base64.encode verifier ++ '.' :: (Base64.encode nonce ++ '.' :: Text.itoa (expiry OIDCState.ttl now)) := by
  simp [OIDCState.payload, List.intercalate]

end

end Protean.Token
