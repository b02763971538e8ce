import Protean.Accounts.Users
import Protean.Proc

namespace Protean.Accounts

structure PasswordPolicy where
  minLength : Int := 8
  requireUpper : Bool := false
  requireLower : Bool := false
  requireDigit : Bool := false
  requireSymbol : Bool := false
  deriving DecidableEq, Repr

inductive PolicyError
  | tooShort (minLength : Int)
  | noUpper
  | noLower
  | noDigit
  | noSymbol
  deriving DecidableEq, Repr

/-- The classes of characters that `unicode` knows. -/
structure CharClasses where
  isUpper : Char → Bool
  isLower : Char → Bool
  isDigit : Char → Bool
  isPunctOrSymbol : Char → Bool

/-- The length is counted in bytes. A character counts for the first of its classes. -/
def validatePassword (unicode : CharClasses) (policy : PasswordPolicy) (password : Text) : Except PolicyError Unit :=
  let hasUpper := password.any unicode.isUpper
  let hasLower := password.any fun r => !unicode.isUpper r && unicode.isLower r
  let hasDigit := password.any fun r => !unicode.isUpper r && !unicode.isLower r && unicode.isDigit r
  let hasSymbol := password.any fun r =>
    !unicode.isUpper r && !unicode.isLower r && !unicode.isDigit r && unicode.isPunctOrSymbol r
  if ((password.map Char.utf8Size).sum : Int) < policy.minLength then .error (.tooShort policy.minLength)
  else if policy.requireUpper && !hasUpper then .error .noUpper
  else if policy.requireLower && !hasLower then .error .noLower
  else if policy.requireDigit && !hasDigit then .error .noDigit
  else if policy.requireSymbol && !hasSymbol then .error .noSymbol
  else .ok ()

/-- How the steps of a request go, and what they find. -/
structure ResetEnv where
  unicode : CharClasses
  getUser : Bool := true
  body : Option Text
  policy : Option PasswordPolicy := some {}
  lookUp : Bool := true
  hashPassword : Text → Option Text
  now : Int := 0
  updateUser : Bool := true

def updateUserPassword (works : Bool) (now : Int) (id : Int) (hash : Text) : Proc Users Unit := do
  Proc.guard works
  let _ ← Proc.read fun t : Users => t.get id
  Proc.modify fun t => t.update id (fun u => { u with passwordHash := some hash, passwordChangedAt := now }) fun _ => rfl

def adminSetPassword (env : ResetEnv) (username newPassword : Text) : Proc Users Unit := do
  let policy ← Proc.lift env.policy
  Proc.lift (validatePassword env.unicode policy newPassword).toOption
  let user ← Proc.read fun t : Users => if env.lookUp then t.find username .localAccount else none
  let hash ← Proc.lift (env.hashPassword newPassword)
  updateUserPassword env.updateUser env.now user.1 hash

def apiUsersResetPassword (env : ResetEnv) (id : Int) : Proc Users Unit := do
  let target ← Proc.read fun t : Users => if env.getUser then t.get id else none
  let newPassword ← Proc.lift env.body
  adminSetPassword env target.username newPassword

/-- Everything but the password. -/
def User.profile (u : User) : Text × AuthSource × Role × Bool × Bool :=
  (u.username, u.authSource, u.role, u.enabled, u.portalAccessEnabled)

/-- The account has the new password, and nothing else is different. -/
structure SetsPassword (id : Int) (hash : Text) (before after : Users) : Prop where
  own : (after.get id).map User.passwordHash = some (some hash)
  others : ∀ i, i ≠ id → (after.get i).map User.passwordHash = (before.get i).map User.passwordHash
  profiles : ∀ i, (after.get i).map User.profile = (before.get i).map User.profile

/-- A request fails without an effect or sets the password of the account it names. -/
def ResetsOnly (env : ResetEnv) (id : Int) (t : Users) : Prop :=
  match (apiUsersResetPassword env id).exec t with
  | (none, t') => t' = t
  | (some _, t') => ∃ password hash, env.body = some password ∧ env.hashPassword password = some hash ∧
      SetsPassword id hash t t'

/-- No step stops the request, which comes to a local account of the target's name. -/
structure Reaches (env : ResetEnv) (id : Int) (t : Users) (target : User) (hash : Text) (m : Int) (v : User) :
    Prop where
  getUser : env.getUser = true
  found : t.get id = some target
  password : ∃ password policy, env.body = some password ∧ env.policy = some policy ∧
    validatePassword env.unicode policy password = .ok () ∧ env.hashPassword password = some hash
  lookUp : env.lookUp = true
  account : t.get m = some v
  named : v.name = (.localAccount, target.username)
  updateUser : env.updateUser = true

/-- The target is a local account, or both have the password already. -/
def NamesLocal (env : ResetEnv) (id : Int) (t : Users) : Prop :=
  ∀ target hash m v, Reaches env id t target hash m v →
    target.authSource = .localAccount ∨ target.passwordHash = some hash ∧ v.passwordHash = some hash

def setPassword (env : ResetEnv) (hash : Text) (t : Users) (m : Int) : Users :=
  t.update m (fun u => { u with passwordHash := some hash, passwordChangedAt := env.now }) fun _ => rfl

section
variable {env : ResetEnv} {id m : Int} {t : Users} {target v : User} {hash : Text}

theorem exec_of_reaches (reaches : Reaches env id t target hash m v) :
    (apiUsersResetPassword env id).exec t = (some (), setPassword env hash t m) := by
  obtain ⟨password, policy, body, read, valid, hashed⟩ := reaches.password
  have account : t.find target.username .localAccount = some (m, v) :=
    t.find_eq_some_iff.mpr ⟨reaches.account, reaches.named⟩
  unfold apiUsersResetPassword adminSetPassword updateUserPassword
  rw [Proc.exec_bind, Proc.exec_read, if_pos reaches.getUser, reaches.found]
  dsimp only
  rw [Proc.exec_lift_bind, body]
  dsimp only
  rw [Proc.exec_lift_bind, read]
  dsimp only
  rw [Proc.exec_lift_bind, valid]
  dsimp only [Except.toOption]
  rw [Proc.exec_bind, Proc.exec_read, if_pos reaches.lookUp, account]
  dsimp only
  rw [Proc.exec_lift_bind, hashed]
  dsimp only
  rw [Proc.exec_guard_bind, if_pos reaches.updateUser, Proc.exec_bind, Proc.exec_read, reaches.account]
  rfl

/-- A request that is stopped has changed nothing. -/
theorem exec_cases (env : ResetEnv) (id : Int) (t : Users) :
    (apiUsersResetPassword env id).exec t = (none, t) ∨ ∃ target hash m v, Reaches env id t target hash m v := by
  unfold apiUsersResetPassword adminSetPassword updateUserPassword
  rw [Proc.exec_bind, Proc.exec_read]
  cases getUser : env.getUser with
  | false => exact .inl rfl
  | true =>
    rw [if_pos rfl]
    cases found : t.get id with
    | none => exact .inl rfl
    | some target =>
      dsimp only
      rw [Proc.exec_lift_bind]
      cases body : env.body with
      | none => exact .inl rfl
      | some password =>
        dsimp only
        rw [Proc.exec_lift_bind]
        cases read : env.policy with
        | none => exact .inl rfl
        | some policy =>
          dsimp only
          rw [Proc.exec_lift_bind]
          cases valid : validatePassword env.unicode policy password with
          | error e => exact .inl rfl
          | ok _ =>
            dsimp only [Except.toOption]
            rw [Proc.exec_bind, Proc.exec_read]
            cases lookUp : env.lookUp with
            | false => exact .inl rfl
            | true =>
              rw [if_pos rfl]
              cases account : t.find target.username .localAccount with
              | none => exact .inl rfl
              | some row =>
                obtain ⟨there, named⟩ := t.find_eq_some_iff.mp account
                dsimp only
                rw [Proc.exec_lift_bind]
                cases hashed : env.hashPassword password with
                | none => exact .inl rfl
                | some hash =>
                  dsimp only
                  rw [Proc.exec_guard_bind]
                  cases updateUser : env.updateUser with
                  | false => exact .inl rfl
                  | true =>
                    exact .inr ⟨target, hash, row.1, row.2, getUser, found,
                      ⟨password, policy, body, read, valid, hashed⟩, lookUp, there, named, updateUser⟩

theorem get_setPassword (env : ResetEnv) (hash : Text) (t : Users) (m i : Int) :
    (setPassword env hash t m).get i =
      if i = m then (t.get i).map fun u => { u with passwordHash := some hash, passwordChangedAt := env.now }
      else t.get i := t.get_update m _ _ i

theorem profile_setPassword (i : Int) :
    ((setPassword env hash t m).get i).map User.profile = (t.get i).map User.profile := by
  rw [get_setPassword]
  split
  · rw [Option.map_map]
    rfl
  · rfl

theorem setsPassword_iff (reaches : Reaches env id t target hash m v) :
    SetsPassword id hash t (setPassword env hash t m) ↔
      target.authSource = .localAccount ∨ target.passwordHash = some hash ∧ v.passwordHash = some hash := by
  have own : (setPassword env hash t m).get m =
      some { v with passwordHash := some hash, passwordChangedAt := env.now } := by
    rw [get_setPassword, if_pos rfl, reaches.account, Option.map_some]
  by_cases same : m = id
  · -- the account of the name is the target itself
    subst same
    have equal : v = target := Option.some.inj (reaches.account.symm.trans reaches.found)
    refine iff_of_true ⟨by rw [own]; rfl, fun i other => ?_, profile_setPassword⟩ (.inl ?_)
    · rw [get_setPassword, if_neg other]
    · rw [← equal]
      exact (Prod.mk.inj reaches.named).1
  · have kept : (setPassword env hash t m).get id = some target := by
      rw [get_setPassword, if_neg fun equal => same equal.symm, reaches.found]
    constructor
    · intro sets
      have first := sets.own
      have second := sets.others m same
      rw [kept] at first
      rw [own, reaches.account] at second
      exact .inr ⟨Option.some.inj first, (Option.some.inj second).symm⟩
    · rintro (source | ⟨first, second⟩)
      · refine absurd (t.get_inj reaches.account reaches.found ?_) same
        rw [reaches.named, ← source]
        rfl
      · refine ⟨by rw [kept, Option.map_some, first], fun i other => ?_, profile_setPassword⟩
        rw [get_setPassword]
        split
        · rename_i equal
          rw [equal, reaches.account, Option.map_map, Option.map_some, Option.map_some, second]
          rfl
        · rfl

end

/-- A reset stays with the account it names, exactly if that is a local one. -/
theorem reset_password_only_iff (env : ResetEnv) (id : Int) (t : Users) :
    ResetsOnly env id t ↔ NamesLocal env id t := by
  unfold ResetsOnly
  constructor
  · intro holds target hash m v reaches
    rw [exec_of_reaches reaches] at holds
    obtain ⟨password', hash', body', hashed', sets⟩ := holds
    obtain ⟨password, policy, body, read, valid, hashed⟩ := reaches.password
    rw [body] at body'
    cases body'
    rw [hashed] at hashed'
    cases hashed'
    exact (setsPassword_iff reaches).mp sets
  · intro names
    rcases exec_cases env id t with stopped | ⟨target, hash, m, v, reaches⟩
    · rw [stopped]
    · obtain ⟨password, policy, body, read, valid, hashed⟩ := reaches.password
      rw [exec_of_reaches reaches]
      exact ⟨password, hash, body, hashed, (setsPassword_iff reaches).mpr (names target hash m v reaches)⟩

def latinClasses : CharClasses := ⟨Char.isUpper, Char.isLower, Char.isDigit, fun c => !c.isAlphanum⟩

def resetEnv : ResetEnv where
  unicode := latinClasses
  body := some "longsecret".toList
  hashPassword p := some ('h' :: p)

def localBob : User where
  username := "bob".toList
  authSource := .localAccount
  role := .user
  passwordHash := some "old".toList

def ldapBob : User := { username := "bob".toList, authSource := .ldap, role := .user }

def oneBob : Users := Users.empty.insert localBob fun _ _ here => by cases here

/-- A local account and one of the directory, with the numbers 1 and 2. -/
def twoBobs : Users := oneBob.insert ldapBob fun id v here named => by
  have first := (Users.empty.get_insert localBob (fun _ _ here => by cases here) id).symm.trans here
  split at first
  · cases first
    cases named
  · cases first

/-- A reset for the account of the directory sets the password of the local one. -/
theorem reset_password_hits_other :
    (twoBobs.get 1).map User.passwordHash = some (some "old".toList) ∧
    ((apiUsersResetPassword resetEnv 2).exec twoBobs).1 = some () ∧
    (((apiUsersResetPassword resetEnv 2).exec twoBobs).2.get 1).map User.passwordHash =
      some (some "hlongsecret".toList) ∧
    ¬ ResetsOnly resetEnv 2 twoBobs := by
  have before : (twoBobs.get 1).map User.passwordHash = some (some "old".toList) := by decide +kernel
  have done : ((apiUsersResetPassword resetEnv 2).exec twoBobs).1 = some () := by decide +kernel
  have after : (((apiUsersResetPassword resetEnv 2).exec twoBobs).2.get 1).map User.passwordHash =
      some (some "hlongsecret".toList) := by decide +kernel
  refine ⟨before, done, after, fun holds => ?_⟩
  unfold ResetsOnly at holds
  generalize (apiUsersResetPassword resetEnv 2).exec twoBobs = result at holds done after
  obtain ⟨answer, t'⟩ := result
  cases done
  obtain ⟨_, _, _, _, sets⟩ := holds
  have kept := sets.others 1 (by decide)
  rw [before, after] at kept
  cases kept

end Protean.Accounts
