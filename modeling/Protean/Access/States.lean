import Protean.Access.Requests
import Protean.Run

namespace Protean.Access

/-- What a user owns on a provider, against the state of the request. -/
structure Sound (owns : Text → Prop) (status : Option RequestStatus) : Prop where
  one : ∀ id id', owns id → owns id' → id = id'
  none : status = some .denied ∨ status = some .approved → ∀ id, ¬ owns id
  some : status = some .granted → ∃ id, owns id

def Consistent (r : Records) : Prop :=
  ∀ user provider, Sound (r.owns user provider) (r.requests.get (user, provider))

/-- The peer may become the user's: it is no second one, and nobody who was
granted access loses it. -/
structure Assignable (r : Records) (user : Int) (provider id : Text) : Prop where
  only : ∀ id', r.owns user provider id' → id' = id
  spared : ∀ other, r.owns other provider id → other ≠ user → r.requests.get (other, provider) ≠ some .granted

/-- The id of the peer that an approval assigns, if it comes to that. -/
def ApproveEnv.assigned (env : ApproveEnv) (type : ProviderType) : Option Text :=
  if type.autoProvisionable && env.setOwner then env.provisioned.map encodePeerID else none

/-- What must go well for an approval of a request with this status. -/
def ApproveEnv.Safe (env : ApproveEnv) (r : Records) (user : Int) (provider : Text) (status : RequestStatus) : Prop :=
  ∀ type, env.reg provider = some type →
    match env.assigned type with
    | none => env.setApproved = true → ∀ id, ¬ r.owns user provider id
    | some id => Assignable r user provider id ∧
        (env.download = true ∧ env.setGranted = true ∨
          env.setApproved = false ∧ (status = .pending ∨ status = .granted))

/-- The same for a link to a request with this status. -/
def LinkEnv.Safe (env : LinkEnv) (r : Records) (user : Int) (provider pubkey : Text) (status : RequestStatus) : Prop :=
  env.setOwner = true → Assignable r user provider (encodePeerID pubkey) ∧
    (env.download = true ∧ env.setGranted = true ∨ status = .pending)

/-- What must go well for a request to stay in step with the peers. -/
def Op.Safe (r : Records) : Op → Prop
  | .request _ _ _ => True
  | .approve env get user provider =>
    get = true → ∀ status, r.requests.get (user, provider) = some status → env.Safe r user provider status
  | .deny get set user provider =>
    get = true → (r.requests.get (user, provider)).isSome = true → set = true → ∀ id, ¬ r.owns user provider id
  | .grant env user provider =>
    env.account = true → takesRequests env.reg provider = true → r.knownOwner env.listOwned user provider = false →
      env.upsert = true → env.Safe r user provider .pending
  | .revoke env account user provider =>
    account = true → takesRequests env.reg provider = true → ∀ id, r.owns user provider id →
      (r.requests.get (user, provider) = some .granted →
        ((env.listOwned = true ∧ env.clearOwner (provider, id) = true) ↔
          (env.listRequests = true ∧ env.setStatus provider = true))) ∧
      (r.requests.get (user, provider) = some .pending → env.listRequests = true → env.setStatus provider = true →
        env.listOwned = true ∧ env.clearOwner (provider, id) = true)
  | .link env user provider providerName pubkey =>
    pubkey ≠ [] → env.getRequest = true → ∀ status, r.requests.get (user, provider) = some status →
      provider = providerName ∧ status ≠ .granted ∧ status ≠ .denied → env.Safe r user provider pubkey status

section
variable {r r' : Records} {user : Int} {provider : Text}

theorem Sound.congr {owns owns' : Text → Prop} {status : Option RequestStatus} (same : ∀ id, owns' id ↔ owns id)
    (sound : Sound owns status) : Sound owns' status := by
  have eq : owns' = owns := funext fun id => propext (same id)
  rw [eq]
  exact sound

/-- When only what concerns one user and provider changes, only that is at stake. -/
theorem consistent_local_iff (consistent : Consistent r) (user : Int) (provider : Text)
    (owns : ∀ u p id, (u, p) ≠ (user, provider) → (r'.owns u p id ↔ r.owns u p id))
    (requests : ∀ k, k ≠ (user, provider) → r'.requests.get k = r.requests.get k) :
    Consistent r' ↔ Sound (r'.owns user provider) (r'.requests.get (user, provider)) := by
  constructor
  · intro all
    exact all user provider
  · intro own u p
    by_cases same : (u, p) = (user, provider)
    · obtain ⟨rfl, rfl⟩ := Prod.mk.inj same
      exact own
    · rw [requests _ same]
      exact (consistent u p).congr fun id => owns u p id same

section
variable {owns : Text → Prop} {status : Option RequestStatus} (one : ∀ id id', owns id → owns id' → id = id')
include one

theorem sound_open (undecided : status = none ∨ status = some .pending) : Sound owns status := by
  refine ⟨one, fun closed => ?_, fun granted => ?_⟩
  · rcases undecided with rfl | rfl <;> rcases closed with s | s <;> cases s
  · rcases undecided with rfl | rfl <;> cases granted

theorem sound_closed_iff (closed : status = some .denied ∨ status = some .approved) :
    Sound owns status ↔ ∀ id, ¬ owns id := by
  constructor
  · intro sound
    exact sound.none closed
  · intro none'
    refine ⟨one, fun _ => none', fun granted => ?_⟩
    rcases closed with rfl | rfl <;> cases granted

theorem sound_granted_iff : Sound owns (some .granted) ↔ ∃ id, owns id := by
  constructor
  · intro sound
    exact sound.some rfl
  · intro owned
    refine ⟨one, fun closed => ?_, fun _ => owned⟩
    rcases closed with s | s <;> cases s

end

/-- When some peers are given up and the request is perhaps closed, both must
come together: a granted request is closed exactly if its peer is given up. -/
theorem sound_revoked_iff {owns cleared : Text → Prop} {status : Option RequestStatus} {closes : Prop} [Decidable closes]
    (sound : Sound owns status) :
    Sound (fun id => owns id ∧ ¬ cleared id) (if status.isSome = true ∧ closes then some .denied else status) ↔
      ∀ id, owns id → (status = some .granted → (cleared id ↔ closes)) ∧
        (status = some .pending → closes → cleared id) := by
  have one : ∀ id id', owns id ∧ ¬ cleared id → owns id' ∧ ¬ cleared id' → id = id' :=
    fun id id' own own' => sound.one id id' own.1 own'.1
  have denied : Sound (fun id => owns id ∧ ¬ cleared id) (some .denied) ↔ ∀ id, owns id → cleared id :=
    (sound_closed_iff one (.inl rfl)).trans (forall_congr' fun _ => not_and_not_right)
  by_cases owned : ∃ id, owns id
  · obtain ⟨id, own⟩ := owned
    cases status with
    | none => exact iff_of_true (sound_open one (.inl (by simp))) (by simp)
    | some status =>
      by_cases closing : closes
      · rw [if_pos ⟨rfl, closing⟩, denied]
        cases status with
        | pending | granted => simp [closing]
        | approved => exact absurd own (sound.none (.inr rfl) id)
        | denied => exact absurd own (sound.none (.inl rfl) id)
      · rw [if_neg fun both => closing both.2]
        cases status with
        | pending => exact iff_of_true (sound_open one (.inr rfl)) (by simp [closing])
        | granted =>
          rw [sound_granted_iff one]
          constructor
          · rintro ⟨kept, own', notCleared⟩ id' own''
            obtain rfl := sound.one kept id' own' own''
            exact ⟨fun _ => iff_of_false notCleared closing, nofun⟩
          · intro all
            exact ⟨id, own, fun cleared => closing (((all id own).1 rfl).mp cleared)⟩
        | approved => exact absurd own (sound.none (.inr rfl) id)
        | denied => exact absurd own (sound.none (.inl rfl) id)
  · -- without a peer, the request is not granted
    refine iff_of_true ⟨one, fun _ id own => owned ⟨id, own.1⟩, fun granted => ?_⟩ fun id own => absurd ⟨id, own⟩ owned
    split at granted
    · cases granted
    · exact absurd (sound.some granted) owned

theorem consistent_withStatus_iff (consistent : Consistent r) (status : RequestStatus) :
    Consistent (r.withStatus user provider status) ↔ Sound (r.owns user provider) (some status) := by
  have owns : ∀ u p id, (u, p) ≠ (user, provider) → ((r.withStatus user provider status).owns u p id ↔ r.owns u p id) :=
    fun _ _ _ _ => Iff.rfl
  refine (consistent_local_iff consistent user provider owns fun k other => KeyTable.get_upsert_of_ne _ _ other).trans ?_
  rw [Records.withStatus, KeyTable.get_upsert_self]
  rfl

section
variable {id : Text} (owns : ∀ u p id', r'.owns u p id' ↔ if p = provider ∧ id' = id then user = u else r.owns u p id')
  (others : ∀ k, k ≠ (user, provider) → r'.requests.get k = r.requests.get k)
include owns

theorem owns_assigned : r'.owns user provider id := (owns _ _ _).mpr (by rw [if_pos ⟨rfl, rfl⟩])

/-- Nobody else gets anything. -/
theorem owns_of_assigned {u : Int} {p id' : Text} (other : (u, p) ≠ (user, provider)) (owned : r'.owns u p id') :
    r.owns u p id' := by
  rw [owns] at owned
  split at owned
  · rename_i both
    exact absurd (Prod.ext owned.symm both.1) other
  · exact owned

include others

theorem assignable_of_assigned (before : Consistent r) (after : Consistent r') : Assignable r user provider id := by
  refine ⟨fun id' old => ?_, fun other old different granted => ?_⟩
  · by_cases same : id' = id
    · exact same
    · exact (after user provider).one id' id ((owns _ _ _).mpr (by simpa [same] using old)) (owns_assigned owns)
  · -- the user who owned the peer before has no other
    have key : ((other, provider) : Int × Text) ≠ (user, provider) := fun same => different (congrArg Prod.fst same)
    obtain ⟨id', still⟩ := (after other provider).some ((others _ key).trans granted)
    have same : id' = id := (before other provider).one id' id (owns_of_assigned owns key still) old
    rw [owns, if_pos ⟨rfl, same⟩] at still
    exact different still.symm

theorem sound_assigned (before : Consistent r) (assignable : Assignable r user provider id) {u : Int} {p : Text}
    (other : (u, p) ≠ (user, provider)) : Sound (r'.owns u p) (r'.requests.get (u, p)) := by
  have sound := before u p
  have old : ∀ id', r'.owns u p id' → r.owns u p id' := fun _ => owns_of_assigned owns other
  rw [others _ other]
  refine ⟨fun a b ownA ownB => sound.one a b (old a ownA) (old b ownB),
    fun closed id' owned => sound.none closed id' (old id' owned), fun granted => ?_⟩
  obtain ⟨id', owned⟩ := sound.some granted
  refine ⟨id', ?_⟩
  rw [owns, if_neg]
  · exact owned
  · rintro ⟨rfl, rfl⟩
    exact assignable.spared u owned (fun same => other (by rw [same])) granted

/-- A peer is assigned, whatever becomes of the user's request. -/
theorem consistent_assigned_iff (before : Consistent r) :
    Consistent r' ↔ Assignable r user provider id ∧ r'.requests.get (user, provider) ≠ some .denied ∧
      r'.requests.get (user, provider) ≠ some .approved := by
  constructor
  · intro after
    have none' := (after user provider).none
    exact ⟨assignable_of_assigned owns others before after, fun denied => none' (.inl denied) id (owns_assigned owns),
      fun approved => none' (.inr approved) id (owns_assigned owns)⟩
  · rintro ⟨assignable, notDenied, notApproved⟩ u p
    by_cases key : (u, p) = (user, provider)
    · obtain ⟨rfl, rfl⟩ := Prod.mk.inj key
      have only : ∀ id', r'.owns u p id' → id' = id := by
        intro id' owned
        by_contra different
        rw [owns, if_neg fun both => different both.2] at owned
        exact different (assignable.only id' owned)
      refine ⟨fun a b ownA ownB => (only a ownA).trans (only b ownB).symm, fun closed => ?_,
        fun _ => ⟨id, owns_assigned owns⟩⟩
      exact absurd closed (not_or.mpr ⟨notDenied, notApproved⟩)
    · exact sound_assigned owns others before assignable key

end

theorem consistent_assign_status_iff (consistent : Consistent r) (id : Text) (status : RequestStatus) :
    Consistent ((r.setPeerOwner provider id user).withStatus user provider status) ↔
      Assignable r user provider id ∧ status ≠ .denied ∧ status ≠ .approved := by
  have owns : ∀ u p id', ((r.setPeerOwner provider id user).withStatus user provider status).owns u p id' ↔
      if p = provider ∧ id' = id then user = u else r.owns u p id' := owns_setPeerOwner r provider id user
  refine (consistent_assigned_iff owns (fun k other => KeyTable.get_upsert_of_ne _ _ other) consistent).trans ?_
  have set : ((r.setPeerOwner provider id user).withStatus user provider status).requests.get (user, provider) =
      some status := KeyTable.get_upsert_self _ _ _
  rw [set, Ne, Ne, Option.some.injEq, Option.some.injEq]

theorem consistent_assign_iff (consistent : Consistent r) (id : Text) {status : RequestStatus}
    (row : r.requests.get (user, provider) = some status) :
    Consistent (r.setPeerOwner provider id user) ↔
      Assignable r user provider id ∧ status ≠ .denied ∧ status ≠ .approved := by
  refine (consistent_assigned_iff (owns_setPeerOwner r provider id user) (fun _ _ => rfl) consistent).trans ?_
  have same : (r.setPeerOwner provider id user).requests.get (user, provider) = some status := row
  rw [same, Ne, Ne, Option.some.injEq, Option.some.injEq]

theorem approveRequest_state {env : ApproveEnv} {type : ProviderType} (registered : env.reg provider = some type)
    (row : (r.requests.get (user, provider)).isSome = true) :
    ((approveRequest env user provider).exec r).2 =
      match env.assigned type with
      | none => if env.setApproved then r.withStatus user provider .approved else r
      | some id =>
        if env.download = true ∧ env.setGranted = true then
          (r.setPeerOwner provider id user).withStatus user provider .granted
        else if env.setApproved then (r.setPeerOwner provider id user).withStatus user provider .approved
        else r.setPeerOwner provider id user := by
  have row' : ∀ id, ((r.setPeerOwner provider id user).requests.get (user, provider)).isSome = true := fun _ => row
  unfold approveRequest ApproveEnv.assigned
  rw [registered, Proc.exec_lift_bind]
  dsimp only
  cases type.autoProvisionable with
  | false =>
    simp only [Bool.false_eq_true, if_false, Bool.false_and]
    rw [exec_setRequestStatus]
    cases env.setApproved <;> simp [row]
  | true =>
    simp only [if_true, Bool.true_and]
    rw [Proc.exec_bind, Proc.exec_attempt, exec_autoProvisionAndGrant row]
    cases (if env.setOwner then env.provisioned.map encodePeerID else none) with
    | none =>
      dsimp only
      rw [Proc.exec_bind, Proc.exec_attempt, exec_setRequestStatus]
      cases env.setApproved <;> simp [row]
    | some id =>
      dsimp only
      by_cases checked : env.download = true ∧ env.setGranted = true
      · rw [if_pos checked, if_pos checked]
        rfl
      · rw [if_neg checked, if_neg checked]
        dsimp only
        rw [Proc.exec_bind, Proc.exec_attempt, exec_setRequestStatus]
        cases env.setApproved <;> simp [row']

theorem consistent_approve_iff {env : ApproveEnv} {status : RequestStatus} (consistent : Consistent r)
    (row : r.requests.get (user, provider) = some status) :
    Consistent ((approveRequest env user provider).exec r).2 ↔ env.Safe r user provider status := by
  have there : (r.requests.get (user, provider)).isSome = true := by rw [row]; rfl
  unfold ApproveEnv.Safe
  cases registered : env.reg provider with
  | none =>
    have refused : ((approveRequest env user provider).exec r).2 = r := by
      rw [approveRequest, registered]
      rfl
    rw [refused]
    exact iff_of_true consistent fun _ some' => by cases some'
  | some type =>
    rw [approveRequest_state registered there]
    simp only [Option.some.injEq, forall_eq']
    cases env.assigned type with
    | none =>
      cases env.setApproved with
      | false => exact iff_of_true consistent fun other => by cases other
      | true =>
        simp only [if_true, forall_const]
        exact (consistent_withStatus_iff consistent _).trans (sound_closed_iff (consistent user provider).one (.inr rfl))
    | some id =>
      dsimp only
      by_cases checked : env.download = true ∧ env.setGranted = true
      · rw [if_pos checked, consistent_assign_status_iff consistent]
        simp [checked]
      · rw [if_neg checked, or_iff_right checked]
        cases env.setApproved with
        | true => exact (consistent_assign_status_iff consistent id .approved).trans (by simp)
        | false =>
          refine (consistent_assign_iff consistent id row).trans (and_congr_right fun _ => ?_)
          cases status <;> simp

theorem consistent_revoke_iff {env : RevokeEnv} (consistent : Consistent r) :
    Consistent (revokeUserProviderAccess env user provider r).1 ↔
      ∀ id, r.owns user provider id →
        (r.requests.get (user, provider) = some .granted →
          ((env.listOwned = true ∧ env.clearOwner (provider, id) = true) ↔
            (env.listRequests = true ∧ env.setStatus provider = true))) ∧
        (r.requests.get (user, provider) = some .pending → env.listRequests = true → env.setStatus provider = true →
          env.listOwned = true ∧ env.clearOwner (provider, id) = true) := by
  have owns : (revokeUserProviderAccess env user provider r).1.owns user provider =
      fun id => r.owns user provider id ∧ ¬ (env.listOwned = true ∧ env.clearOwner (provider, id) = true) := by
    funext id
    rw [owns_revoke, and_iff_right (rfl : (user, provider) = (user, provider))]
  have request : (revokeUserProviderAccess env user provider r).1.requests.get (user, provider) =
      if (r.requests.get (user, provider)).isSome = true ∧ env.listRequests = true ∧ env.setStatus provider = true then
        some .denied
      else r.requests.get (user, provider) := by
    rw [requests_revoke]
    simp only [true_and]
  refine (consistent_local_iff consistent user provider (fun u p id other => ?_) fun k other => ?_).trans ?_
  · rw [owns_revoke]
    exact and_iff_left fun same => other same.1
  · rw [requests_revoke, if_neg fun same => other same.1]
  · rw [owns, request]
    exact (sound_revoked_iff (consistent user provider)).trans (forall₂_congr fun _ _ => by rw [and_imp])

/-- Behind a check, only what is let through is at stake. -/
theorem consistent_guard_iff (consistent : Consistent r) {check : Bool} {m : Proc Records Unit} {safe : Prop}
    (passed : check = true → (Consistent (m.exec r).2 ↔ safe)) :
    Consistent ((Proc.guard check >>= fun _ => m).exec r).2 ↔ (check = true → safe) := by
  rw [Proc.exec_guard_bind]
  cases check with
  | false => exact iff_of_true consistent nofun
  | true =>
    rw [if_pos rfl, passed rfl]
    exact ⟨fun holds _ => holds, fun holds => holds rfl⟩

theorem consistent_guard (consistent : Consistent r) {check : Bool} {m : Proc Records Unit}
    (passed : Consistent (m.exec r).2) : Consistent ((Proc.guard check >>= fun _ => m).exec r).2 :=
  (consistent_guard_iff consistent fun _ => iff_true_intro passed).mpr fun _ => trivial

theorem consistent_getRequest_iff (consistent : Consistent r) {works : Bool} {f : RequestStatus → Proc Records Unit}
    {safe : RequestStatus → Prop}
    (found : ∀ status, r.requests.get (user, provider) = some status → (Consistent ((f status).exec r).2 ↔ safe status)) :
    Consistent ((getRequest works user provider >>= f).exec r).2 ↔
      (works = true → ∀ status, r.requests.get (user, provider) = some status → safe status) := by
  rw [exec_getRequest_bind]
  cases works with
  | false => exact iff_of_true consistent nofun
  | true =>
    cases row : r.requests.get (user, provider) with
    | none => exact iff_of_true consistent fun _ _ => nofun
    | some status =>
      refine (found status row).trans ⟨fun holds _ s same => Option.some.inj same ▸ holds, fun all => all rfl status rfl⟩

theorem consistent_assignAndGrant_iff {setOwner download setGranted : Bool} {id : Text} {status : RequestStatus}
    (consistent : Consistent r) (row : r.requests.get (user, provider) = some status) (notGranted : status ≠ .granted) :
    Consistent ((assignAndGrant setOwner download setGranted user provider id).exec r).2 ↔
      (setOwner = true → Assignable r user provider id ∧ (download = true ∧ setGranted = true ∨ status = .pending)) := by
  rw [exec_assignAndGrant (Option.isSome_iff_exists.mpr ⟨status, row⟩)]
  cases setOwner with
  | false => exact iff_of_true consistent nofun
  | true =>
    simp only [if_true, forall_const]
    by_cases checked : download = true ∧ setGranted = true
    · rw [if_pos checked, consistent_assign_status_iff consistent]
      simp [checked]
    · rw [if_neg checked, or_iff_right checked, consistent_assign_iff consistent id row]
      refine and_congr_right fun _ => ?_
      cases status <;> simp_all

theorem assignable_withStatus_iff (status : RequestStatus) (id : Text) :
    Assignable (r.withStatus user provider status) user provider id ↔ Assignable r user provider id := by
  have others : ∀ other, other ≠ user →
      (r.withStatus user provider status).requests.get (other, provider) = r.requests.get (other, provider) :=
    fun other different => KeyTable.get_upsert_of_ne _ _ fun same => different (congrArg Prod.fst same)
  constructor
  · intro assignable
    refine ⟨assignable.only, fun other owned different => ?_⟩
    rw [← others other different]
    exact assignable.spared other owned different
  · intro assignable
    refine ⟨assignable.only, fun other owned different => ?_⟩
    rw [others other different]
    exact assignable.spared other owned different

theorem safe_withStatus_iff {env : ApproveEnv} :
    env.Safe (r.withStatus user provider .pending) user provider .pending ↔ env.Safe r user provider .pending := by
  unfold ApproveEnv.Safe
  refine forall_congr' fun type => imp_congr_right fun _ => ?_
  cases env.assigned type with
  | none => exact Iff.rfl
  | some id => exact and_congr_left' (assignable_withStatus_iff .pending id)

theorem consistent_upsert (consistent : Consistent r) : Consistent (r.withStatus user provider .pending) :=
  (consistent_withStatus_iff consistent .pending).mpr (sound_open (consistent user provider).one (.inr rfl))

theorem consistent_request {env : GrantEnv} (consistent : Consistent r) :
    Consistent ((apiPortalRequestAccess env user provider).exec r).2 := by
  unfold apiPortalRequestAccess
  refine consistent_guard consistent (consistent_guard consistent ?_)
  rw [Proc.exec_bind, Proc.exec_read]
  refine consistent_guard consistent ?_
  unfold upsertRequest
  refine consistent_guard consistent ?_
  rw [Proc.exec_modify]
  exact consistent_upsert consistent

theorem consistent_grant_iff {env : GrantEnv} (consistent : Consistent r) :
    Consistent ((grantAccess env user provider).exec r).2 ↔ (Op.grant env user provider).Safe r := by
  unfold grantAccess Op.Safe
  refine consistent_guard_iff consistent fun _ => consistent_guard_iff consistent fun _ => ?_
  rw [Proc.exec_bind, Proc.exec_read]
  dsimp only
  cases r.knownOwner env.listOwned user provider with
  | true => exact iff_of_true consistent nofun
  | false =>
    simp only [Bool.false_eq_true, if_false, forall_const]
    unfold upsertRequest
    rw [Proc.exec_bind, Proc.exec_guard_bind]
    cases env.upsert with
    | false => exact iff_of_true consistent nofun
    | true =>
      simp only [if_true, forall_const]
      rw [Proc.exec_modify, ← safe_withStatus_iff]
      exact consistent_approve_iff (consistent_upsert consistent) (KeyTable.get_upsert_self _ _ _)

theorem consistent_deny_iff {get set : Bool} (consistent : Consistent r) :
    Consistent ((apiAccessRequestDeny get set user provider).exec r).2 ↔ (Op.deny get set user provider).Safe r := by
  have denied : ∀ status, r.requests.get (user, provider) = some status →
      (Consistent ((setRequestStatus set user provider .denied).exec r).2 ↔
        (set = true → ∀ id, ¬ r.owns user provider id)) := by
    intro status row
    rw [exec_setRequestStatus]
    cases set with
    | false => exact iff_of_true consistent nofun
    | true =>
      rw [if_pos ⟨rfl, Option.isSome_iff_exists.mpr ⟨status, row⟩⟩, consistent_withStatus_iff consistent,
        sound_closed_iff (consistent user provider).one (.inl rfl)]
      simp
  refine (consistent_getRequest_iff consistent denied).trans (imp_congr_right fun _ => ?_)
  rw [Option.isSome_iff_exists, forall_exists_index]

theorem consistent_link_iff {env : LinkEnv} {providerName pubkey : Text} (consistent : Consistent r) :
    Consistent ((linkPeerToAccessRequest env user provider providerName pubkey).exec r).2 ↔
      (Op.link env user provider providerName pubkey).Safe r := by
  have matched : ∀ status, r.requests.get (user, provider) = some status →
      (Consistent ((Proc.guard (provider = providerName ∧ status ≠ .granted ∧ status ≠ .denied) >>= fun _ =>
          assignAndGrant env.setOwner env.download env.setGranted user provider (encodePeerID pubkey)).exec r).2 ↔
        (decide (provider = providerName ∧ status ≠ .granted ∧ status ≠ .denied) = true →
          env.Safe r user provider pubkey status)) := by
    intro status row
    refine consistent_guard_iff consistent fun passed => consistent_assignAndGrant_iff consistent row ?_
    exact (of_decide_eq_true passed).2.1
  refine (consistent_guard_iff consistent fun _ => consistent_getRequest_iff consistent matched).trans ?_
  unfold Op.Safe
  simp only [decide_eq_true_iff]

/-- A request that is handled leaves all in step exactly if it is safe. -/
theorem consistent_handle_iff (consistent : Consistent r) (op : Op) : Consistent (handle r op) ↔ op.Safe r := by
  cases op with
  | request env user provider => exact iff_of_true (consistent_request consistent) trivial
  | approve env get user provider =>
    exact consistent_getRequest_iff consistent fun status row => consistent_approve_iff consistent row
  | deny get set user provider => exact consistent_deny_iff consistent
  | grant env user provider => exact consistent_grant_iff consistent
  | revoke env account user provider =>
    refine consistent_guard_iff consistent fun _ => consistent_guard_iff consistent fun _ => ?_
    exact consistent_revoke_iff consistent
  | link env user provider providerName pubkey => exact consistent_link_iff consistent

/-- From a state in step on, requests and peers are in step all the way exactly
if every request that is handled is safe. -/
theorem access_states_throughout_iff {ops : List Op} (consistent : Consistent r) :
    (∀ first, first <+: ops → Consistent (Run.after handle r first)) ↔
      Run.Meets handle (fun r op => op.Safe r) r ops := by
  have exact_step : ∀ s op, Consistent s → (Consistent (handle s op) ↔ Op.Safe s op) :=
    fun _ op start => consistent_handle_iff start op
  exact Run.Meets.throughout_iff exact_step consistent

end

theorem consistent_empty : Consistent {} :=
  fun _ _ => ⟨fun _ _ => nofun, fun _ _ => nofun, nofun⟩

/-- A provider on which the next peer has this key. -/
def wgApprove (pubkey : Text) : ApproveEnv where
  reg := fun _ => some .wireguard
  provisioned := some pubkey

def wgGrant (pubkey : Text) : GrantEnv where
  toApproveEnv := wgApprove pubkey

theorem access_states_throughout_sample :
    Consistent {} ∧
    ∀ first, first <+: [Op.request (wgGrant "a".toList) 7 "wg".toList,
        .approve (wgApprove "a".toList) true 7 "wg".toList] →
      Consistent (Run.after handle {} first) := by
  refine ⟨consistent_empty, (access_states_throughout_iff consistent_empty).mpr ⟨trivial, ?_, trivial⟩⟩
  rintro - status - type same
  obtain rfl := Option.some.inj same
  exact ⟨⟨fun _ => nofun, fun _ => nofun⟩, .inl ⟨rfl, rfl⟩⟩

def directGrant (env : GrantEnv) : Op := .grant env 7 "wg".toList

/-- A user who was granted a peer keeps it when the request is denied, and gets
a second one when it is approved again. When the check of a new peer fails, the
request is approved and the peer is the user's. -/
theorem access_states_part :
    (∃ r, Run.after handle {} [directGrant (wgGrant "a".toList), .deny true true 7 "wg".toList] = r ∧
      r.requests.get (7, "wg".toList) = some .denied ∧ r.owns 7 "wg".toList (encodePeerID "a".toList) ∧
      ¬ Consistent r) ∧
    (∃ r, Run.after handle {} [directGrant (wgGrant "a".toList), .approve (wgApprove "b".toList) true 7 "wg".toList] = r ∧
      r.owns 7 "wg".toList (encodePeerID "a".toList) ∧ r.owns 7 "wg".toList (encodePeerID "b".toList) ∧
      ¬ Consistent r) ∧
    ∃ r, Run.after handle {} [directGrant { wgGrant "a".toList with download := false }] = r ∧
      r.requests.get (7, "wg".toList) = some .approved ∧ r.owns 7 "wg".toList (encodePeerID "a".toList) ∧
      ¬ Consistent r := by
  refine ⟨⟨_, rfl, ?_⟩, ⟨_, rfl, ?_⟩, _, rfl, ?_⟩
  · generalize run : Run.after handle {} _ = r
    have denied : r.requests.get (7, "wg".toList) = some .denied := by subst run; decide +kernel
    have owned : r.owns 7 "wg".toList (encodePeerID "a".toList) := by subst run; unfold Records.owns; decide +kernel
    exact ⟨denied, owned, fun consistent => (consistent _ _).none (.inl denied) _ owned⟩
  · generalize run : Run.after handle {} _ = r
    have first : r.owns 7 "wg".toList (encodePeerID "a".toList) := by subst run; unfold Records.owns; decide +kernel
    have second : r.owns 7 "wg".toList (encodePeerID "b".toList) := by subst run; unfold Records.owns; decide +kernel
    have different : encodePeerID "a".toList ≠ encodePeerID "b".toList := by decide +kernel
    exact ⟨first, second, fun consistent => different ((consistent _ _).one _ _ first second)⟩
  · generalize run : Run.after handle {} _ = r
    have approved : r.requests.get (7, "wg".toList) = some .approved := by subst run; decide +kernel
    have owned : r.owns 7 "wg".toList (encodePeerID "a".toList) := by subst run; unfold Records.owns; decide +kernel
    exact ⟨approved, owned, fun consistent => (consistent _ _).none (.inr approved) _ owned⟩

end Protean.Access
