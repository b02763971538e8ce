import Protean.Accounts.LastAdmin
import Protean.Token.Separation

namespace Protean.Accounts
open Token (Issued Assembled PendingAuth.verify PendingAuth.ttl expiry)

structure Session where
  userID : Int
  expiresAt : Int

/-- The secret and the settings of the process, bcrypt and the codes of second factors. -/
structure Checks where
  mac : Text → Vector UInt8 32
  emergencyUsername : Text
  checkPassword : Text → Text → Bool
  validateTOTP : Int → Text → Text → Bool

def Checks.isEmergency (c : Checks) (username : Text) : Bool := c.emergencyUsername ≠ [] ∧ username = c.emergencyUsername

/-- The accounts with their second factors, the methods that are on, and the rows of `sessions`
under their token hashes. What was signed is noted beside them. -/
structure Panel where
  users : Users
  totp : Int → Option Text
  enabled : AuthSource → Bool
  ttl : Int
  now : Int
  sessions : KeyTable Text Session := KeyTable.empty
  issued : List Issued := []

section
variable (c : Checks) (p : Panel)

/-- `Login`, up to the second factor. -/
def Panel.login (username password : Text) : Option Int := do
  guard (p.enabled .localAccount ∨ c.isEmergency username)
  let (id, u) ← p.users.find username .localAccount
  guard (u.passwordHash.any (c.checkPassword · password))
  guard (checkAccountLoginAllowed u)
  return id

/-- `Verify` of the pending login, and `CompleteTOTPLogin` with its name. -/
def Panel.completeTOTPLogin (pending code : Text) : Option Int := do
  let username ← PendingAuth.verify c.mac p.now pending >>= ofUtf8
  let (id, u) ← p.users.find username .localAccount
  let secret ← p.totp id
  guard (c.validateTOTP p.now secret code)
  guard (checkAccountLoginAllowed u)
  return id

def Panel.authenticate (tokenHash : Text) : Option Int := do
  let s ← p.sessions.get tokenHash
  guard (p.now < s.expiresAt)
  let u ← p.users.get s.userID
  guard (checkAccountLoginAllowed u)
  guard (p.enabled u.authSource ∨ u.authSource = .localAccount ∧ c.isEmergency u.username)
  return s.userID

/-- Requests, and what else comes to pass. One that fails on the way changes nothing. -/
inductive LoginEvent
  | login (username password tokenHash : Text)
  | login2FA (pending code tokenHash : Text)
  | external (env : LoginEnv) (method : Method) (username : Text) (groups : List Text) (tokenHash : Text)
  /-- A logout; or the row goes with its account, or past its end. -/
  | delete (tokenHash : Text)
  | sign (token : Issued)
  | wait (seconds : Nat)
  | change (users : Users) (totp : Int → Option Text) (enabled : AuthSource → Bool) (ttl : Int)

/-- The session that is created, under a hash that is drawn. -/
def LoginEvent.opens : LoginEvent → Option (Text × Int)
  | .login username password hash => (p.login c username password).bind fun id => if p.totp id = none then some (hash, id) else none
  | .login2FA pending code hash => (p.completeTOTPLogin c pending code).map (hash, ·)
  | .external env method username groups hash =>
    let (answer, users) := (finishExternalLogin env method username groups).exec p.users
    answer.bind fun _ => (users.find username method.source).map fun u => (hash, u.1)
  | _ => none

/-- The token that is handed out, of a pending login or by the other issuers. -/
def LoginEvent.signs : LoginEvent → Option Issued
  | .login username password _ =>
    (p.login c username password).bind fun id => if p.totp id = none then none else some (.pending p.now (utf8 username))
  | .sign (.pending ..) => none
  | .sign token => some token
  | _ => none

def Panel.step (e : LoginEvent) : Panel :=
  let p' : Panel := match e with
    | .external env method username groups _ => { p with users := ((finishExternalLogin env method username groups).exec p.users).2 }
    | .delete hash => { p with sessions := p.sessions.delete hash }
    | .wait seconds => { p with now := p.now + seconds }
    | .change users totp enabled ttl => { p with users, totp, enabled, ttl }
    | _ => p
  { p' with
    issued := (e.signs c p).toList ++ p.issued
    sessions := match e.opens c p with
      -- the column is unique
      | some (hash, id) => if (p.sessions.get hash).isSome then p.sessions else p.sessions.upsert hash ⟨id, p.now + p.ttl⟩
      | none => p'.sessions }

end

section
variable {c : Checks} {p : Panel} {e : LoginEvent} {hash : Text} {row : Session}

theorem opens_of_row (absent : p.sessions.get hash ≠ some row) (present : (p.step c e).sessions.get hash = some row) :
    e.opens c p = some (hash, row.userID) ∧ row.expiresAt = p.now + p.ttl := by
  unfold Panel.step at present
  dsimp only at present
  split at present
  · rename_i hash' id opens
    split at present
    · exact absurd present absent
    · rw [KeyTable.get_upsert] at present
      split at present
      · rename_i same
        cases present
        exact ⟨same ▸ opens, rfl⟩
      · exact absurd present absent
  · cases e with
    | delete hash' =>
      rw [KeyTable.get_delete] at present
      split at present
      · cases present
      · exact absurd present absent
    | _ => exact absurd present absent

/-- A pending login has passed the password. -/
theorem login_of_signs {time : Int} {bytes : List UInt8} (signs : e.signs c p = some (.pending time bytes)) :
    ∃ username password hash id, e = .login username password hash ∧ p.login c username password = some id ∧
      p.totp id ≠ none ∧ time = p.now ∧ bytes = utf8 username := by
  unfold LoginEvent.signs at signs
  split at signs
  · obtain ⟨id, passed, pending⟩ := Option.bind_eq_some_iff.mp signs
    split at pending
    · cases pending
    · cases pending
      exact ⟨_, _, _, id, rfl, passed, ‹_›, rfl, rfl⟩
  · cases signs
  · rename_i other
    cases signs
    exact absurd rfl (other _ _)
  · cases signs

end

/-- Whoever a session lets in has opened it by a login of that account, has not logged out since nor
outstayed it; and if by a code, then the password of the account's name was given before, within the
five minutes of the pending login. Clients may present any token they can assemble from what was signed. -/
theorem session_logged_in (c : Checks) (start : Panel) (fresh : start.sessions = KeyTable.empty ∧ start.issued = [])
    (events : List LoginEvent) (assembled : Run.Meets (Panel.step c)
      (fun p e => ∀ pending code h, e = .login2FA pending code h → Assembled c.mac p.issued pending) start events)
    (hash : Text) (id : Int) (known : (Run.after (Panel.step c) start events).authenticate c hash = some id) :
    ∃ pre e post, events = pre ++ e :: post ∧ .delete hash ∉ post ∧
      let p := Run.after (Panel.step c) start pre
      e.opens c p = some (hash, id) ∧ (Run.after (Panel.step c) start events).now < p.now + p.ttl ∧
      ∀ pending code h, e = .login2FA pending code h → ∃ first username password h' rest id',
        pre = first ++ .login username password h' :: rest ∧
        let q := Run.after (Panel.step c) start first
        q.login c username password = some id' ∧ q.totp id' ≠ none ∧ p.now ≤ expiry PendingAuth.ttl q.now ∧
          (p.users.find username .localAccount).map Prod.fst = some id := by
  simp only [Panel.authenticate, Option.bind_eq_bind, Option.bind_eq_some_iff, Option.guard_eq_some', Option.pure_def,
    Option.some.injEq] at known
  obtain ⟨row, found, _, unexpired, -, -, -, -, -, -, rfl⟩ := known
  have unknown : start.sessions.get hash ≠ some row := by rw [fresh.1]; exact nofun
  obtain ⟨pre, e, post, rfl, absent, present, later⟩ := Run.origin (P := fun p : Panel => p.sessions.get hash = some row) unknown found
  obtain ⟨opens, expires⟩ := opens_of_row absent present
  refine ⟨pre, e, post, rfl, fun member => ?_, opens, expires ▸ unexpired, ?_⟩
  · obtain ⟨t, kept⟩ := later _ member
    cases (KeyTable.get_delete_self _ _).symm.trans kept
  · rintro pending code h rfl
    have token := (Run.Meets.append.mp assembled).2.1 pending code h rfl
    obtain ⟨id, completed, same⟩ := Option.map_eq_some_iff.mp opens
    simp only [Panel.completeTOTPLogin, Option.bind_eq_bind, Option.bind_eq_some_iff, Prod.exists, Option.pure_def,
      Option.some.injEq] at completed
    obtain ⟨username, ⟨bytes, verified, name⟩, id', u, user, -, -, -, -, -, -, rfl⟩ := completed
    obtain ⟨time, logged, -, timely⟩ := Token.PendingAuth.issued_of_verify token verified
    have unsigned : .pending time bytes ∉ start.issued := by rw [fresh.2]; exact List.not_mem_nil
    obtain ⟨first, e, rest, rfl, before, made, -⟩ := Run.origin (P := fun p : Panel => .pending time bytes ∈ p.issued) unsigned logged
    obtain ⟨username', password, h', id', rfl, passed, second, rfl, rfl⟩ :=
      login_of_signs (Option.mem_toList.mp ((List.mem_append.mp made).resolve_right before))
    cases (ofUtf8_utf8 username').symm.trans name
    exact ⟨first, username, password, h', rest, id', rfl, passed, second, timely, by rw [user]; cases same; rfl⟩

/-- An account with a second factor. -/
def samplePanel : Panel where
  users := Users.empty.insert ⟨['a'], .localAccount, .admin, some [], 0, true, true⟩ fun _ _ here => by cases here
  totp _ := some []
  enabled _ := true
  ttl := 3600
  now := 900

def sampleChecks : Checks := ⟨Token.sampleMac, [], fun _ _ => true, fun _ _ _ => true⟩

def sampleLogin : List LoginEvent :=
  [.login ['a'] [] [], .wait 100, .login2FA (Token.PendingAuth.issue Token.sampleMac 900 [97]) [] ['h']]

theorem session_logged_in_sample : ∃ pre e post, sampleLogin = pre ++ e :: post ∧
    e.opens sampleChecks (Run.after (Panel.step sampleChecks) samplePanel pre) = some (['h'], 1) := by
  have assembled : Assembled Token.sampleMac [.pending 900 [97]] (Token.PendingAuth.issue Token.sampleMac 900 [97]) :=
    Token.assembled_of_issued List.mem_cons_self
  obtain ⟨pre, e, post, split, -, opens, -⟩ := session_logged_in sampleChecks samplePanel ⟨rfl, rfl⟩ sampleLogin
    ⟨nofun, nofun, fun _ _ _ same => by cases same; exact assembled, trivial⟩ ['h'] 1 (by decide +kernel)
  exact ⟨pre, e, post, split, opens⟩

end Protean.Accounts
