import Protean.KeyTable
import Protean.Text

namespace Protean.Accounts

inductive Role
  | admin
  | user
  deriving DecidableEq, Repr

inductive AuthSource
  | localAccount
  | ldap
  | oidc
  deriving DecidableEq, Repr

/-- A row of the table of users. Accounts of other sources have no password. -/
structure User where
  username : Text
  authSource : AuthSource
  role : Role
  passwordHash : Option Text := none
  passwordChangedAt : Int := 0
  enabled : Bool := true
  portalAccessEnabled : Bool := true
  deriving DecidableEq, Repr

def User.name (u : User) : AuthSource × Text := (u.authSource, u.username)

/-- The table, in which a name stands at most once for each source. Numbers are given
out in order. -/
structure Users where
  rows : KeyTable Int User
  nextID : Int
  below : ∀ id u, rows.get id = some u → id < nextID
  unique : ∀ id id' u u', rows.get id = some u → rows.get id' = some u' → u.name = u'.name → id = id'

namespace Users

def empty : Users := ⟨KeyTable.empty, 1, fun _ _ here => (by cases here), fun _ _ _ _ here => (by cases here)⟩

def get (t : Users) (id : Int) : Option User := t.rows.get id

/-- Whether a number gives the row of a name. -/
def find (t : Users) (username : Text) (authSource : AuthSource) : Option (Int × User) :=
  t.rows.rows.find? fun r => r.2.name = (authSource, username)

variable (t : Users) {id id' : Int} {u u' : User} {username : Text} {authSource : AuthSource}

theorem get_inj (here : t.get id = some u) (there : t.get id' = some u') (same : u.name = u'.name) : id = id' :=
  t.unique id id' u u' here there same

theorem find_eq_some_iff : t.find username authSource = some (id, u) ↔
    t.get id = some u ∧ u.name = (authSource, username) := by
  constructor
  · intro found
    have named := List.find?_some found
    exact ⟨KeyTable.get_eq_some_iff.mpr (List.mem_of_find?_eq_some found), of_decide_eq_true named⟩
  · rintro ⟨here, named⟩
    cases found : t.find username authSource with
    | none =>
      have other := List.find?_eq_none.mp found (id, u) (KeyTable.get_eq_some_iff.mp here)
      exact absurd (decide_eq_true named) other
    | some row =>
      have there : t.get row.1 = some row.2 := KeyTable.get_eq_some_iff.mpr (List.mem_of_find?_eq_some found)
      have name := List.find?_some found
      have same := t.get_inj here there (named.trans (of_decide_eq_true name).symm)
      rw [← same, here] at there
      exact congrArg some (Prod.ext same.symm (Option.some.inj there).symm)

theorem find_eq_none_iff : t.find username authSource = none ↔
    ∀ id u, t.get id = some u → u.name ≠ (authSource, username) := by
  constructor
  · intro none id u here named
    rw [t.find_eq_some_iff.mpr ⟨here, named⟩] at none
    cases none
  · intro none
    cases found : t.find username authSource with
    | none => rfl
    | some row =>
      obtain ⟨here, named⟩ := t.find_eq_some_iff.mp found
      exact absurd named (none row.1 row.2 here)

/-- One row is written again under its name. -/
def update (id : Int) (f : User → User) (keeps : ∀ u, (f u).name = u.name) : Users :=
  match found : t.rows.get id with
  | none => t
  | some u =>
    { rows := t.rows.upsert id (f u)
      nextID := t.nextID
      below := by
        intro i v here
        rw [KeyTable.get_upsert] at here
        split at here
        · rename_i same
          exact same ▸ t.below id u found
        · exact t.below i v here
      unique := by
        have old : ∀ i v, (t.rows.upsert id (f u)).get i = some v → ∃ w, t.rows.get i = some w ∧ w.name = v.name := by
          intro i v here
          rw [KeyTable.get_upsert] at here
          split at here
          · rename_i same
            cases here
            exact ⟨u, same ▸ found, (keeps u).symm⟩
          · exact ⟨v, here, rfl⟩
        intro i i' v v' here there same
        obtain ⟨w, before, name⟩ := old i v here
        obtain ⟨w', before', name'⟩ := old i' v' there
        exact t.unique i i' w w' before before' (name.trans (same.trans name'.symm)) }

theorem get_update (id : Int) (f : User → User) (keeps : ∀ u, (f u).name = u.name) (i : Int) :
    (t.update id f keeps).get i = if i = id then (t.get i).map f else t.get i := by
  unfold update get
  split
  · rename_i none
    split
    · rename_i same
      rw [same, none]
      rfl
    · rfl
  · rename_i u found
    dsimp only
    rw [KeyTable.get_upsert]
    split
    · rename_i same
      rw [same, found]
      rfl
    · rfl

def delete (id : Int) : Users where
  rows := t.rows.delete id
  nextID := t.nextID
  below := by
    intro i v here
    rw [KeyTable.get_delete] at here
    split at here
    · cases here
    · exact t.below i v here
  unique := by
    intro i i' v v' here there
    rw [KeyTable.get_delete] at here there
    split at here
    · cases here
    · split at there
      · cases there
      · exact t.unique i i' v v' here there

theorem get_delete (id i : Int) : (t.delete id).get i = if i = id then none else t.get i := KeyTable.get_delete ..

/-- A row of a new name gets the next number. -/
def insert (u : User) (new : ∀ id v, t.rows.get id = some v → v.name ≠ u.name) : Users where
  rows := t.rows.upsert t.nextID u
  nextID := t.nextID + 1
  below := by
    intro i v here
    rw [KeyTable.get_upsert] at here
    split at here
    · omega
    · have old := t.below i v here
      omega
  unique := by
    intro i i' v v' here there same
    rw [KeyTable.get_upsert] at here there
    split at here
    · cases here
      split at there
      · omega
      · exact absurd same.symm (new i' v' there)
    · split at there
      · cases there
        exact absurd same (new i v here)
      · exact t.unique i i' v v' here there same

theorem get_insert (u : User) (new : ∀ id v, t.rows.get id = some v → v.name ≠ u.name) (i : Int) :
    (t.insert u new).get i = if i = t.nextID then some u else t.get i := KeyTable.get_upsert ..

/-- `INSERT … ON CONFLICT (auth_source, username) DO UPDATE SET role`. -/
def upsertExternalUser (username : Text) (authSource : AuthSource) (role : Role) : Users :=
  match found : t.find username authSource with
  | some (id, _) => t.update id (fun u => { u with role := role }) fun _ => rfl
  | none => t.insert { username, authSource, role } (t.find_eq_none_iff.mp found)

def countUsersByRole (role : Role) : Nat := t.rows.rows.countP fun r => r.2.role = role

/-- The admins of `ListUsers` that are enabled. -/
def enabledAdmins : Nat := t.rows.rows.countP fun r => r.2.role = .admin && r.2.enabled

end Users

end Protean.Accounts
