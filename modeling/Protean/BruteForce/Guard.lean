import Protean.KeyTable
import Protean.Run
import Protean.Text

namespace Protean.BruteForce

/-- Times and durations are in nanoseconds. -/
def second : Int := 1000000000

/-- `time.Duration(n) * time.Minute`, in 64 bits. -/
def minutes (n : Int) : Int := (n * (60 * second)).bmod (2 ^ 64)

structure LoginSecuritySettings where
  enabled : Bool
  trackByUsername : Bool
  trackByIP : Bool
  failThreshold : Int
  countWindowMinutes : Int
  escalationResetMinutes : Int
  deriving DecidableEq, Repr

def defaultLoginSecuritySettings : LoginSecuritySettings where
  enabled := true
  trackByUsername := true
  trackByIP := true
  failThreshold := 3
  countWindowMinutes := 5
  escalationResetMinutes := 60

inductive RuleKind
  | allow
  | deny
  deriving DecidableEq, Repr

structure LoginIPRule where
  ipOrCIDR : Text
  kind : RuleKind
  deriving DecidableEq, Repr

/-- The settings and rules of a guard, how it reads addresses, and how long a
ban of each level is: the base, the factor and the maximum are read only in
that floating-point computation. -/
structure Guard where
  settings : LoginSecuritySettings
  rules : List LoginIPRule
  parseIP : Text → Bool
  contains : Text → Text → Bool
  banDuration : Nat → Int

/-- What failures are counted by. -/
inductive Key
  | ip (value : Text)
  | username (value : Text)
  deriving DecidableEq, Repr

structure Attempt where
  username : Text
  ip : Text
  success : Bool
  reason : Text
  ts : Int
  deriving DecidableEq, Repr

structure BanState where
  bannedUntil : Int
  escalationLevel : Nat
  deriving DecidableEq, Repr

structure State where
  attempts : List Attempt
  bans : KeyTable Key BanState

structure CheckResult where
  allowed : Bool
  reason : Text := []
  retryAfter : Int := 0
  deriving DecidableEq, Repr

structure IssuedBan where
  key : Key
  time : Int
  level : Nat
  bannedUntil : Int
  deriving DecidableEq, Repr

def Attempt.of (a : Attempt) : Key → Bool
  | .ip value => a.ip = value
  | .username value => a.username = value

/-- A row that `CountRecentFailures` counts. -/
def Attempt.counts (a : Attempt) (key : Key) (since : Int) : Bool := a.of key && !a.success && since < a.ts

def countRecentFailures (attempts : List Attempt) (key : Key) (since : Int) : Nat :=
  (attempts.filter fun a => a.counts key since).length

section
variable (g : Guard)

/-- One rule after the other: a deny ends the search, an allow is kept. -/
def matchIPRules (ip : Text) : Option RuleKind → List LoginIPRule → Option RuleKind
  | matched, [] => matched
  | matched, r :: rules =>
    if r.ipOrCIDR = ip ∨ g.parseIP ip ∧ g.contains r.ipOrCIDR ip then
      match r.kind with
      | .deny => some .deny
      | .allow => matchIPRules ip (some .allow) rules
    else matchIPRules ip matched rules

/-- The keys of an attempt that the settings track, the address first. -/
def tracked (ip username : Text) : List Key :=
  (if g.settings.trackByIP then [.ip ip] else []) ++
    if g.settings.trackByUsername ∧ username ≠ [] then [.username username] else []

def bannedReason : Key → Text
  | .ip _ => "banned_ip".toList
  | .username _ => "banned_username".toList

def checkBan (bans : KeyTable Key BanState) (now : Int) (key : Key) : Option CheckResult :=
  match bans.get key with
  | none => none
  | some ban =>
    if ban.bannedUntil - now ≤ 0 then none
    else some { allowed := false, reason := bannedReason key, retryAfter := ban.bannedUntil - now }

def checkLogin (bans : KeyTable Key BanState) (now : Int) (ip username : Text) : CheckResult :=
  if g.settings.enabled then
    match matchIPRules g ip none g.rules with
    | some .deny => { allowed := false, reason := "ip_denied".toList }
    | some .allow => { allowed := true }
    | none => ((tracked g ip username).findSome? (checkBan bans now)).getD { allowed := true }
  else { allowed := true }

def recordLoginAttempt (now : Int) (username ip : Text) (success : Bool) (reason : Text) (s : State) : State :=
  { s with attempts := s.attempts ++ [⟨username, ip, success, reason, now⟩] }

/-- The level of a ban that is issued now. -/
def nextLevel (bans : KeyTable Key BanState) (now : Int) (key : Key) : Nat :=
  match bans.get key with
  | none => 0
  | some prev => if now - prev.bannedUntil ≤ minutes g.settings.escalationResetMinutes then prev.escalationLevel + 1 else 0

/-- The failures in the window have come to the threshold. -/
def atThreshold (attempts : List Attempt) (now : Int) (key : Key) : Bool :=
  g.settings.failThreshold ≤ countRecentFailures attempts key (now - minutes g.settings.countWindowMinutes)

def maybeEscalate (now : Int) (key : Key) (s : State) : State × Option IssuedBan :=
  if atThreshold g s.attempts now key then
    let level := nextLevel g s.bans now key
    ({ s with bans := s.bans.upsert key ⟨now + g.banDuration level, level⟩ },
      some ⟨key, now, level, now + g.banDuration level⟩)
  else (s, none)

def escalateAll (now : Int) : List Key → State → State × List IssuedBan
  | [], s => (s, [])
  | key :: keys, s =>
    let (s₁, ban) := maybeEscalate g now key s
    let (s₂, bans) := escalateAll now keys s₁
    (s₂, ban.toList ++ bans)

/-- A success ends the bans of its keys and starts their levels again. -/
def clearAll (now : Int) (keys : List Key) (s : State) : State :=
  { s with bans := keys.foldl (fun bans key => bans.upsert key ⟨now - second, 0⟩) s.bans }

def recordResult (now : Int) (ip username : Text) (success : Bool) (reason : Text) (s : State) :
    State × List IssuedBan :=
  let s := recordLoginAttempt now username ip success reason s
  if g.settings.enabled then
    if success then (clearAll now (tracked g ip username) s, [])
    else escalateAll g now (tracked g ip username) s
  else (s, [])

/-- `LogRejected`. -/
def logRejected (now : Int) (ip username reason : Text) (s : State) : State :=
  recordLoginAttempt now username ip false reason s

/-- `ClearLoginBanState`: a key without a row stays without one. -/
def clearLoginBanState (now : Int) (key : Key) (s : State) : State :=
  match s.bans.get key with
  | none => s
  | some _ => { s with bans := s.bans.upsert key ⟨now, 0⟩ }

/-- What the credential check comes to, if it is reached: a password with a
second factor still to come is not recorded. -/
inductive Credentials
  | success
  | failure (reason : Text)
  | pending
  deriving DecidableEq, Repr

inductive Event
  | login (ip username : Text) (credentials : Credentials)
  | unban (key : Key)
  deriving DecidableEq, Repr

/-- What is seen of an event: the decision of the guard, and the bans it issues. -/
structure Output where
  check : Option CheckResult
  bans : List IssuedBan
  deriving DecidableEq, Repr

def handle (s : State) : Int × Event → State × Output
  | (now, .unban key) => (clearLoginBanState now key s, ⟨none, []⟩)
  | (now, .login ip username credentials) =>
    let check := checkLogin g s.bans now ip username
    if check.allowed then
      match credentials with
      | .pending => (s, ⟨some check, []⟩)
      | .success =>
        let (s, bans) := recordResult g now ip username true [] s
        (s, ⟨some check, bans⟩)
      | .failure reason =>
        let (s, bans) := recordResult g now ip username false reason s
        (s, ⟨some check, bans⟩)
    else (logRejected now ip username check.reason s, ⟨some check, []⟩)

def step (s : State) (e : Int × Event) : State := (handle g s e).1

/-- What is seen of a run. -/
def outputs : State → List (Int × Event) → List Output
  | _, [] => []
  | s, e :: es => (handle g s e).2 :: outputs (step g s e) es

end

end Protean.BruteForce
