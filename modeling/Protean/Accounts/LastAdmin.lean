import Protean.Accounts.Users
import Protean.Proc
import Protean.Run

namespace Protean.Accounts

inductive Act
  | delete
  | setEnabled (enabled : Bool)
  deriving DecidableEq, Repr

/-- A request of an admin about an account. -/
structure AdminRequest where
  caller : Int
  target : Int
  act : Act
  deriving DecidableEq, Repr

/-- The next step of a request. -/
inductive AdminStage
  | idle
  | lookUp (r : AdminRequest)
  | count (r : AdminRequest)
  | act (r : AdminRequest)
  deriving DecidableEq, Repr

namespace AdminRequest

/-- The caller's own account is refused, but may be enabled. -/
def afterLookUp (r : AdminRequest) (u : User) : AdminStage :=
  match r.act with
  | .delete => if u.role = .admin then .count r else if r.target = r.caller then .idle else .act r
  | .setEnabled false => if r.target = r.caller then .idle else if u.role = .admin then .count r else .act r
  | .setEnabled true => .act r

/-- Before an admin is deleted all admins are counted, and before one is disabled
those that are enabled. -/
def afterCount (r : AdminRequest) (t : Users) : AdminStage :=
  match r.act with
  | .delete => if t.countUsersByRole .admin ≤ 1 then .idle else if r.target = r.caller then .idle else .act r
  | .setEnabled _ => if t.enabledAdmins ≤ 1 then .idle else .act r

def effect (r : AdminRequest) (t : Users) : Users :=
  match r.act with
  | .delete => t.delete r.target
  | .setEnabled enabled => t.update r.target (fun u => { u with enabled := enabled }) fun _ => rfl

end AdminRequest

structure AuthGroupRule where
  role : Role
  groupValue : Text
  deriving DecidableEq, Repr

/-- The rules for admins come first. -/
def resolveRoleFromRules (rules : List AuthGroupRule) (groups : List Text) : Option Role :=
  [Role.admin, Role.user].find? fun role => rules.any fun rule => rule.role = role && groups.contains rule.groupValue

inductive Method
  | ldap
  | oidc
  deriving DecidableEq, Repr

def Method.source : Method → AuthSource
  | .ldap => .ldap
  | .oidc => .oidc

structure LoginEnv where
  rules : Option (List AuthGroupRule) := some []
  upsertUser : Bool := true
  createSession : Bool := true

def checkAccountLoginAllowed (u : User) : Bool := u.enabled && !(u.role = .user && !u.portalAccessEnabled)

def finishExternalLogin (env : LoginEnv) (method : Method) (username : Text) (groups : List Text) :
    Proc Users Unit := do
  let rules ← Proc.lift env.rules
  let role ← Proc.lift (resolveRoleFromRules rules groups)
  Proc.guard env.upsertUser
  Proc.modify fun t => t.upsertExternalUser username method.source role
  let user ← Proc.read fun t : Users => t.find username method.source
  Proc.guard (checkAccountLoginAllowed user.2)
  Proc.guard env.createSession

/-- The accounts, and the requests under way. -/
structure Desk where
  users : Users
  stages : Nat → AdminStage

inductive DeskEvent
  /-- A request comes in, with a session of its caller. -/
  | request (i : Nat) (r : AdminRequest)
  /-- The next step of a request, which may fail. -/
  | run (i : Nat) (works : Bool)
  | login (env : LoginEnv) (method : Method) (username : Text) (groups : List Text)

def isEnabledAdmin (t : Users) (id : Int) : Bool :=
  match t.get id with
  | some u => u.role = .admin && u.enabled
  | none => false

def HasAdmin (t : Users) : Prop := ∃ id, isEnabledAdmin t id = true

namespace Desk

def start (t : Users) : Desk := ⟨t, fun _ => .idle⟩

def goto (s : Desk) (i : Nat) (stage : AdminStage) : Desk := { s with stages := Function.update s.stages i stage }

def step (s : Desk) : DeskEvent → Desk
  | .request i r => if isEnabledAdmin s.users r.caller = true ∧ s.stages i = .idle then s.goto i (.lookUp r) else s
  | .run i works =>
    match s.stages i with
    | .idle => s
    | .lookUp r =>
      match if works then s.users.get r.target else none with
      | none => s.goto i .idle
      | some u => s.goto i (r.afterLookUp u)
    | .count r => s.goto i (if works then r.afterCount s.users else .idle)
    | .act r => ({ s with users := if works then r.effect s.users else s.users }).goto i .idle
  | .login env method username groups =>
    { s with users := ((finishExternalLogin env method username groups).exec s.users).2 }

/-- An account that is deleted, disabled or no longer an admin is not the last enabled admin. -/
def Safe (s : Desk) : DeskEvent → Prop
  | .request _ _ => True
  | .run i works => ∀ r, works = true → s.stages i = .act r → r.act ≠ .setEnabled true →
      ∃ id, id ≠ r.target ∧ isEnabledAdmin s.users id = true
  | .login env method username groups => ∀ rules, env.rules = some rules →
      resolveRoleFromRules rules groups = some .user → env.upsertUser = true →
      ∃ id u, s.users.get id = some u ∧ u.name ≠ (method.source, username) ∧ isEnabledAdmin s.users id = true

end Desk

section
variable {t : Users} {id : Int}

theorem isEnabledAdmin_iff :
    isEnabledAdmin t id = true ↔ ∃ u, t.get id = some u ∧ u.role = .admin ∧ u.enabled = true := by
  unfold isEnabledAdmin
  cases t.get id with
  | none => simp
  | some u => simp

theorem hasAdmin_iff : HasAdmin t ↔ ∃ id u, t.get id = some u ∧ u.role = .admin ∧ u.enabled = true :=
  exists_congr fun _ => isEnabledAdmin_iff

theorem HasAdmin.update (has : HasAdmin t) {f : User → User} {keeps : ∀ u, (f u).name = u.name}
    (kept : ∀ u, u.role = .admin → u.enabled = true → (f u).role = .admin ∧ (f u).enabled = true) :
    HasAdmin (t.update id f keeps) := by
  obtain ⟨i, u, here, admin, enabled⟩ := hasAdmin_iff.mp has
  refine hasAdmin_iff.mpr ⟨i, ?_⟩
  rw [t.get_update]
  by_cases same : i = id
  · rw [if_pos same, here]
    exact ⟨f u, rfl, kept u admin enabled⟩
  · rw [if_neg same]
    exact ⟨u, here, admin, enabled⟩

theorem upsertExternalUser_cases (t : Users) (username : Text) (source : AuthSource) (role : Role) :
    (∃ m v keeps, t.get m = some v ∧ v.name = (source, username) ∧
      t.upsertExternalUser username source role = t.update m (fun u => { u with role := role }) keeps) ∨
    ∃ new, t.upsertExternalUser username source role = t.insert { username, authSource := source, role } new := by
  unfold Users.upsertExternalUser
  split
  · rename_i m v found
    obtain ⟨here, named⟩ := t.find_eq_some_iff.mp found
    exact .inl ⟨m, v, fun _ => rfl, here, named, rfl⟩
  · rename_i none
    exact .inr ⟨t.find_eq_none_iff.mp none, rfl⟩

theorem HasAdmin.insert (has : HasAdmin t) (u : User) (new : ∀ id v, t.rows.get id = some v → v.name ≠ u.name) :
    HasAdmin (t.insert u new) := by
  obtain ⟨i, v, here, admin, enabled⟩ := hasAdmin_iff.mp has
  have old : i ≠ t.nextID := fun same => by
    have below := t.below i v here
    omega
  refine hasAdmin_iff.mpr ⟨i, v, ?_, admin, enabled⟩
  rw [t.get_insert, if_neg old, here]

variable {username : Text} {source : AuthSource}

theorem HasAdmin.upsertExternalUser (has : HasAdmin t) : HasAdmin (t.upsertExternalUser username source .admin) := by
  obtain ⟨m, v, _, _, _, same⟩ | ⟨new, same⟩ := upsertExternalUser_cases t username source .admin
  · rw [same]
    exact has.update fun u _ enabled => ⟨rfl, enabled⟩
  · rw [same]
    exact has.insert _ new

end

namespace Desk

variable {s : Desk}

end Desk

/-- Where the caller's own account has been ruled out. An account is enabled without that check. -/
def AdminStage.Checked : AdminStage → Prop
  | .idle => True
  | .lookUp _ => True
  | .count r => r.act = .setEnabled false → r.target ≠ r.caller
  | .act r => r.act ≠ .setEnabled true → r.target ≠ r.caller

namespace AdminRequest

theorem afterLookUp_checked (r : AdminRequest) (u : User) : (r.afterLookUp u).Checked := by
  unfold afterLookUp
  split
  · rename_i delete
    split
    · exact fun disable => by rw [delete] at disable; cases disable
    · split
      · trivial
      · exact fun _ => ‹_›
  · split
    · trivial
    · split
      · exact fun _ => ‹_›
      · exact fun _ => ‹_›
  · exact fun no => absurd ‹_› no

theorem afterCount_checked (r : AdminRequest) (t : Users) (checked : (AdminStage.count r).Checked) :
    (r.afterCount t).Checked := by
  unfold afterCount
  split
  · split
    · trivial
    · split
      · trivial
      · exact fun _ => ‹_›
  · rename_i enabled set
    split
    · trivial
    · intro no
      cases enabled with
      | true => exact absurd set no
      | false => exact checked set

end AdminRequest

namespace Desk

variable {s : Desk}

def Checked (s : Desk) : Prop := ∀ i, (s.stages i).Checked

theorem Checked.goto (checked : s.Checked) (i : Nat) {stage : AdminStage} (own : stage.Checked) :
    (s.goto i stage).Checked := by
  intro j
  change (Function.update s.stages i stage j).Checked
  by_cases same : j = i
  · rw [same, Function.update_self]
    exact own
  · rw [Function.update_of_ne same]
    exact checked j

theorem Checked.step (s : Desk) (e : DeskEvent) (checked : s.Checked) : (s.step e).Checked := by
  cases e with
  | request i r =>
    simp only [Desk.step]
    split
    · exact checked.goto i trivial
    · exact checked
  | run i works =>
    simp only [Desk.step]
    have own := checked i
    revert own
    cases s.stages i with
    | idle => exact fun _ => checked
    | lookUp r =>
      intro _
      dsimp only
      split
      · exact checked.goto i trivial
      · exact checked.goto i (r.afterLookUp_checked _)
    | count r =>
      intro own
      refine checked.goto i ?_
      split
      · exact r.afterCount_checked _ own
      · trivial
    | act r => exact fun _ => Checked.goto checked i trivial
  | login env method username groups => exact checked

/-- A request whose caller is still an enabled admin leaves that one. -/
theorem Checked.safe (checked : s.Checked) {i : Nat} {works : Bool}
    (caller : ∀ r, s.stages i = .act r → isEnabledAdmin s.users r.caller = true) : s.Safe (.run i works) := by
  intro r _ here acts
  have own := checked i
  rw [here] at own
  exact ⟨r.caller, (own acts).symm, caller r here⟩

end Desk

end Protean.Accounts
