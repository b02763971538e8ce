import Protean.BruteForce.Guard

namespace Protean.BruteForce

section
variable (g : Guard)

/-- The guard turns the event away. -/
def rejects (s : State) : Int × Event → Bool
  | (now, .login ip username _) => !(checkLogin g s.bans now ip username).allowed
  | (_, .unban _) => false

/-- The row an event adds to the attempts. -/
def recorded (s : State) : Int × Event → List Attempt
  | (_, .unban _) => []
  | (now, .login ip username credentials) =>
    if (checkLogin g s.bans now ip username).allowed then
      match credentials with
      | .pending => []
      | .success => [⟨username, ip, true, [], now⟩]
      | .failure reason => [⟨username, ip, false, reason, now⟩]
    else [⟨username, ip, false, (checkLogin g s.bans now ip username).reason, now⟩]

/-- The keys whose failures are counted at an event: the tracked keys of a
failed credential check. -/
def failing (s : State) : Int × Event → List Key
  | (now, .login ip username (.failure _)) =>
    if (checkLogin g s.bans now ip username).allowed ∧ g.settings.enabled then tracked g ip username else []
  | _ => []

end

section
variable {g : Guard} {s s' : State} {now : Int}

theorem maybeEscalate_attempts (key : Key) : (maybeEscalate g now key s).1.attempts = s.attempts := by
  unfold maybeEscalate
  split <;> rfl

theorem escalateAll_attempts (keys : List Key) : (escalateAll g now keys s).1.attempts = s.attempts := by
  induction keys generalizing s with
  | nil => rfl
  | cons key keys ih => exact ih.trans (maybeEscalate_attempts key)

/-- The keys that get a ban are those whose failures have come to the threshold. -/
theorem escalateAll_keys (keys : List Key) :
    (escalateAll g now keys s).2.map (·.key) = keys.filter (atThreshold g s.attempts now) := by
  induction keys generalizing s with
  | nil => rfl
  | cons key keys ih =>
    simp only [escalateAll, List.map_append, ih, maybeEscalate_attempts]
    cases reached : atThreshold g s.attempts now key with
    | false | true => simp [maybeEscalate, reached]

theorem maybeEscalate_congr {key : Key} (bans : s'.bans = s.bans)
    (agree : atThreshold g s'.attempts now key = atThreshold g s.attempts now key) :
    (maybeEscalate g now key s').2 = (maybeEscalate g now key s).2 ∧
      (maybeEscalate g now key s').1.bans = (maybeEscalate g now key s).1.bans := by
  unfold maybeEscalate
  rw [agree, bans]
  split
  · exact ⟨rfl, rfl⟩
  · exact ⟨rfl, bans⟩

/-- Two states with the same bans, in which the same keys are at the threshold,
get the same bans. -/
theorem escalateAll_congr {keys : List Key} (bans : s'.bans = s.bans)
    (agree : ∀ key ∈ keys, atThreshold g s'.attempts now key = atThreshold g s.attempts now key) :
    (escalateAll g now keys s').2 = (escalateAll g now keys s).2 ∧
      (escalateAll g now keys s').1.bans = (escalateAll g now keys s).1.bans := by
  induction keys generalizing s s' with
  | nil => exact ⟨rfl, bans⟩
  | cons key keys ih =>
    obtain ⟨ban, bans'⟩ := maybeEscalate_congr bans (agree key List.mem_cons_self)
    obtain ⟨same, same'⟩ := ih bans' fun key' member => by
      rw [maybeEscalate_attempts, maybeEscalate_attempts]
      exact agree key' (List.mem_cons_of_mem _ member)
    refine ⟨?_, same'⟩
    simp only [escalateAll]
    rw [ban, same]

section
variable {ip username : Text}

theorem handle_rejected (rejected : (checkLogin g s.bans now ip username).allowed = false) (credentials : Credentials) :
    handle g s (now, .login ip username credentials) =
      (logRejected now ip username (checkLogin g s.bans now ip username).reason s,
        ⟨some (checkLogin g s.bans now ip username), []⟩) := by
  simp only [handle, rejected]
  rfl

theorem handle_pending (allowed : (checkLogin g s.bans now ip username).allowed = true) :
    handle g s (now, .login ip username .pending) = (s, ⟨some (checkLogin g s.bans now ip username), []⟩) := by
  simp only [handle, allowed]
  rfl

theorem handle_success (allowed : (checkLogin g s.bans now ip username).allowed = true) :
    handle g s (now, .login ip username .success) =
      (if g.settings.enabled then clearAll now (tracked g ip username) (recordLoginAttempt now username ip true [] s)
        else recordLoginAttempt now username ip true [] s, ⟨some (checkLogin g s.bans now ip username), []⟩) := by
  simp only [handle, allowed, recordResult]
  cases g.settings.enabled <;> rfl

theorem handle_failure (allowed : (checkLogin g s.bans now ip username).allowed = true) (reason : Text) :
    handle g s (now, .login ip username (.failure reason)) =
      (if g.settings.enabled then
          (escalateAll g now (tracked g ip username) (recordLoginAttempt now username ip false reason s)).1
        else recordLoginAttempt now username ip false reason s,
        ⟨some (checkLogin g s.bans now ip username),
          if g.settings.enabled then
            (escalateAll g now (tracked g ip username) (recordLoginAttempt now username ip false reason s)).2
          else []⟩) := by
  simp only [handle, allowed, recordResult]
  cases g.settings.enabled <;> rfl

end

/-- What an event can do. -/
theorem handle_cases {motive : Int × Event → State × Output → Prop}
    (unban : ∀ now key, motive (now, .unban key) (clearLoginBanState now key s, ⟨none, []⟩))
    (rejected : ∀ now ip username credentials, (checkLogin g s.bans now ip username).allowed = false →
      motive (now, .login ip username credentials)
        (logRejected now ip username (checkLogin g s.bans now ip username).reason s,
          ⟨some (checkLogin g s.bans now ip username), []⟩))
    (pending : ∀ now ip username, (checkLogin g s.bans now ip username).allowed = true →
      motive (now, .login ip username .pending) (s, ⟨some (checkLogin g s.bans now ip username), []⟩))
    (success : ∀ now ip username, (checkLogin g s.bans now ip username).allowed = true →
      motive (now, .login ip username .success)
        (if g.settings.enabled then clearAll now (tracked g ip username) (recordLoginAttempt now username ip true [] s)
          else recordLoginAttempt now username ip true [] s, ⟨some (checkLogin g s.bans now ip username), []⟩))
    (disabled : ∀ now ip username reason, (checkLogin g s.bans now ip username).allowed = true →
      g.settings.enabled = false → motive (now, .login ip username (.failure reason))
        (recordLoginAttempt now username ip false reason s, ⟨some (checkLogin g s.bans now ip username), []⟩))
    (failure : ∀ now ip username reason, (checkLogin g s.bans now ip username).allowed = true →
      g.settings.enabled = true → motive (now, .login ip username (.failure reason))
        ((escalateAll g now (tracked g ip username) (recordLoginAttempt now username ip false reason s)).1,
          ⟨some (checkLogin g s.bans now ip username),
            (escalateAll g now (tracked g ip username) (recordLoginAttempt now username ip false reason s)).2⟩))
    (e : Int × Event) : motive e (handle g s e) := by
  obtain ⟨now, event⟩ := e
  cases event with
  | unban key => exact unban now key
  | login ip username credentials =>
    cases allowed : (checkLogin g s.bans now ip username).allowed with
    | false =>
      rw [handle_rejected allowed]
      exact rejected now ip username credentials allowed
    | true =>
      cases credentials with
      | pending =>
        rw [handle_pending allowed]
        exact pending now ip username allowed
      | success =>
        rw [handle_success allowed]
        exact success now ip username allowed
      | failure reason =>
        rw [handle_failure allowed]
        cases enabled : g.settings.enabled with
        | false => exact disabled now ip username reason allowed enabled
        | true => exact failure now ip username reason allowed enabled

theorem step_attempts (e : Int × Event) : (step g s e).attempts = s.attempts ++ recorded g s e := by
  refine handle_cases (motive := fun e result => result.1.attempts = s.attempts ++ recorded g s e)
    ?unban ?rejected ?pending ?success ?disabled ?failure e
  case unban =>
    intro now key
    simp only [clearLoginBanState, recorded, List.append_nil]
    split <;> rfl
  case rejected =>
    intro now ip username credentials turned
    simp [recorded, turned, logRejected, recordLoginAttempt]
  case pending =>
    intro now ip username allowed
    simp [recorded, allowed]
  case success =>
    intro now ip username allowed
    simp only [recorded, allowed, if_true]
    split <;> rfl
  case disabled =>
    intro now ip username reason allowed _
    simp [recorded, allowed, recordLoginAttempt]
  case failure =>
    intro now ip username reason allowed _
    simp only [recorded, allowed, if_true]
    exact escalateAll_attempts _

/-- The bans an event issues, by their keys. -/
theorem handle_keys (e : Int × Event) :
    (handle g s e).2.bans.map (·.key) =
      (failing g s e).filter (atThreshold g (s.attempts ++ recorded g s e) e.1) := by
  refine handle_cases (motive := fun e result => result.2.bans.map (·.key) =
    (failing g s e).filter (atThreshold g (s.attempts ++ recorded g s e) e.1))
    ?unban ?rejected ?pending ?success ?disabled ?failure e
  case unban => exact fun now key => rfl
  case rejected =>
    intro now ip username credentials turned
    cases credentials <;> simp [failing, turned]
  case pending => exact fun now ip username allowed => rfl
  case success => exact fun now ip username allowed => rfl
  case disabled =>
    intro now ip username reason _ disabled
    simp [failing, disabled]
  case failure =>
    intro now ip username reason allowed enabled
    simp only [failing, recorded, allowed, enabled, if_true, and_self]
    exact escalateAll_keys _

/-- What is seen of an event depends on the bans, and on which keys are at the
threshold with its own row. -/
theorem handle_congr {e : Int × Event} (bans : s'.bans = s.bans)
    (agree : ∀ key ∈ failing g s e, atThreshold g (s'.attempts ++ recorded g s e) e.1 key =
      atThreshold g (s.attempts ++ recorded g s e) e.1 key) :
    (handle g s' e).2 = (handle g s e).2 ∧ (step g s' e).bans = (step g s e).bans := by
  obtain ⟨now, event⟩ := e
  cases event with
  | unban key =>
    refine ⟨rfl, ?_⟩
    simp only [step, handle, clearLoginBanState, bans]
    split
    · exact bans
    · rfl
  | login ip username credentials =>
    cases allowed : (checkLogin g s.bans now ip username).allowed with
    | false =>
      have allowed' : (checkLogin g s'.bans now ip username).allowed = false := by rw [bans, allowed]
      rw [step, step, handle_rejected allowed, handle_rejected allowed', bans]
      exact ⟨rfl, bans⟩
    | true =>
      have allowed' : (checkLogin g s'.bans now ip username).allowed = true := by rw [bans, allowed]
      cases credentials with
      | pending =>
        rw [step, step, handle_pending allowed, handle_pending allowed', bans]
        exact ⟨rfl, rfl⟩
      | success =>
        rw [step, step, handle_success allowed, handle_success allowed', bans]
        refine ⟨rfl, ?_⟩
        cases g.settings.enabled with
        | false => exact bans
        | true => exact congrArg (fun b => (clearAll now (tracked g ip username) ⟨[], b⟩).bans) bans
      | failure reason =>
        rw [step, step, handle_failure allowed, handle_failure allowed', bans]
        cases enabled : g.settings.enabled with
        | false => exact ⟨rfl, bans⟩
        | true =>
          simp only [failing, recorded, allowed, enabled, if_true, and_self] at agree
          have both : _ ∧ (escalateAll g now _ (recordLoginAttempt now username ip false reason s')).1.bans =
              (escalateAll g now _ (recordLoginAttempt now username ip false reason s)).1.bans :=
            escalateAll_congr bans agree
          exact ⟨congrArg (Output.mk _) both.1, both.2⟩

theorem handle_of_rejects {e : Int × Event} (rejected : rejects g s e = true) :
    failing g s e = [] ∧ (step g s e).bans = s.bans := by
  obtain ⟨now, event⟩ := e
  cases event with
  | unban key => cases rejected
  | login ip username credentials =>
    have turned : (checkLogin g s.bans now ip username).allowed = false := by simpa [rejects] using rejected
    rw [step, handle_rejected turned]
    refine ⟨?_, rfl⟩
    cases credentials <;> simp [failing, turned]

theorem atThreshold_mono {attempts attempts' : List Attempt} (fewer : attempts'.Sublist attempts) {key : Key}
    (reached : atThreshold g attempts' now key = true) : atThreshold g attempts now key = true := by
  have count := (fewer.filter fun a => a.counts key (now - minutes g.settings.countWindowMinutes)).length_le
  have enough : g.settings.failThreshold ≤
      countRecentFailures attempts' key (now - minutes g.settings.countWindowMinutes) :=
    of_decide_eq_true reached
  exact decide_eq_true (enough.trans (Int.ofNat_le.mpr count))

end

section
variable (g : Guard)

/-- Only events that the guard turns away in the full run are marked. -/
def RejectedOnly : State → List (Bool × Int × Event) → Prop
  | _, [] => True
  | s, (marked, e) :: es => (marked = true → rejects g s e = true) ∧ RejectedOnly (step g s e) es

/-- What the full run shows at the events that are not marked. -/
def keptOutputs : State → List (Bool × Int × Event) → List Output
  | _, [] => []
  | s, (marked, e) :: es =>
    if marked then keptOutputs (step g s e) es else (handle g s e).2 :: keptOutputs (step g s e) es

/-- The events without the marked ones. -/
def keptEvents (es : List (Bool × Int × Event)) : List (Int × Event) := (es.filter fun e => !e.1).map Prod.snd

/-- At each failed credential check of the full run, a tracked key whose
failures in the window come to the threshold does so without the rows of the
marked events: `kept` are the others. -/
def Undisturbed : State → List Attempt → List (Bool × Int × Event) → Prop
  | _, _, [] => True
  | s, kept, (marked, e) :: es =>
    (marked = false → ∀ key ∈ failing g s e, atThreshold g (s.attempts ++ recorded g s e) e.1 key = true →
        atThreshold g (kept ++ recorded g s e) e.1 key = true) ∧
      Undisturbed (step g s e) (kept ++ if marked then [] else recorded g s e) es

end

section
variable {g : Guard} {s : State} {kept : List Attempt} {e : Int × Event}

/-- Without the rows of the marked events an event does the same, as long as
the keys that are at the threshold are so without them. -/
theorem step_kept (fewer : kept.Sublist s.attempts)
    (enough : ∀ key ∈ failing g s e, atThreshold g (s.attempts ++ recorded g s e) e.1 key = true →
      atThreshold g (kept ++ recorded g s e) e.1 key = true) :
    (handle g ⟨kept, s.bans⟩ e).2 = (handle g s e).2 ∧
      step g ⟨kept, s.bans⟩ e = ⟨kept ++ recorded g s e, (step g s e).bans⟩ := by
  have both : (handle g ⟨kept, s.bans⟩ e).2 = (handle g s e).2 ∧
      (step g ⟨kept, s.bans⟩ e).bans = (step g s e).bans := by
    refine handle_congr rfl fun key member => Bool.eq_iff_iff.mpr ⟨fun reached => ?_, enough key member⟩
    exact atThreshold_mono (fewer.append (List.Sublist.refl _)) reached
  have rows : (step g ⟨kept, s.bans⟩ e).attempts = kept ++ recorded g s e := step_attempts e
  refine ⟨both.1, ?_⟩
  calc step g ⟨kept, s.bans⟩ e = ⟨(step g ⟨kept, s.bans⟩ e).attempts, (step g ⟨kept, s.bans⟩ e).bans⟩ := rfl
    _ = ⟨kept ++ recorded g s e, (step g s e).bans⟩ := by rw [rows, both.2]

/-- And otherwise the bans differ. -/
theorem enough_of_handle (same : (handle g ⟨kept, s.bans⟩ e).2 = (handle g s e).2) :
    ∀ key ∈ failing g s e, atThreshold g (s.attempts ++ recorded g s e) e.1 key = true →
      atThreshold g (kept ++ recorded g s e) e.1 key = true := by
  intro key member reached
  have keys : (failing g s e).filter (atThreshold g (kept ++ recorded g s e) e.1) =
      (failing g s e).filter (atThreshold g (s.attempts ++ recorded g s e) e.1) := by
    have own := handle_keys (g := g) (s := ⟨kept, s.bans⟩) e
    rw [← handle_keys, ← same]
    exact own.symm
  have banned : key ∈ (failing g s e).filter (atThreshold g (s.attempts ++ recorded g s e) e.1) :=
    List.mem_filter.mpr ⟨member, reached⟩
  rw [← keys] at banned
  exact (List.mem_filter.mp banned).2

end

/-- The two runs side by side: the bans are the same, and the attempts of the
second are those that are kept. -/
theorem keptOutputs_eq_iff (g : Guard) (es : List (Bool × Int × Event)) (s : State) (kept : List Attempt)
    (fewer : kept.Sublist s.attempts) (rejected : RejectedOnly g s es) :
    keptOutputs g s es = outputs g ⟨kept, s.bans⟩ (keptEvents es) ↔ Undisturbed g s kept es := by
  induction es generalizing s kept with
  | nil => exact ⟨fun _ => trivial, fun _ => rfl⟩
  | cons e es ih =>
    obtain ⟨marked, e⟩ := e
    obtain ⟨own, rest⟩ := rejected
    have attempts := step_attempts (g := g) (s := s) e
    cases marked with
    | true =>
      have fewer' : (kept ++ []).Sublist (step g s e).attempts := by
        rw [attempts]
        exact fewer.append (List.nil_sublist _)
      have next := ih (step g s e) (kept ++ []) fewer' rest
      rw [(handle_of_rejects (own rfl)).2] at next
      exact ⟨fun same => ⟨fun marked => (by cases marked), next.mp (by rw [List.append_nil]; exact same)⟩,
        fun undisturbed => (next.mpr undisturbed.2).trans (by rw [List.append_nil]; rfl)⟩
    | false =>
      have fewer' : (kept ++ recorded g s e).Sublist (step g s e).attempts := by
        rw [attempts]
        exact fewer.append (List.Sublist.refl _)
      have next := ih (step g s e) (kept ++ recorded g s e) fewer' rest
      constructor
      · intro same
        obtain ⟨head, tail⟩ := List.cons.inj same
        have enough := enough_of_handle head.symm
        refine ⟨fun _ => enough, next.mp ?_⟩
        rw [← (step_kept fewer enough).2]
        exact tail
      · rintro ⟨enough, undisturbed⟩
        obtain ⟨head, after⟩ := step_kept fewer (enough rfl)
        have tail := next.mpr undisturbed
        rw [← after] at tail
        exact List.cons_eq_cons.mpr ⟨head.symm, tail⟩

/-- Deleting attempts that the guard turned away leaves every other decision
and every ban as they are, exactly when no ban of the full run rests on them. -/
theorem rejected_invisible_iff (g : Guard) (s : State) (es : List (Bool × Int × Event))
    (rejected : RejectedOnly g s es) :
    keptOutputs g s es = outputs g s (keptEvents es) ↔ Undisturbed g s s.attempts es :=
  keptOutputs_eq_iff g es s s.attempts (List.Sublist.refl _) rejected

/-- The default settings, with one address denied. -/
def sampleGuard : Guard where
  settings := defaultLoginSecuritySettings
  rules := [⟨"10.0.0.9".toList, .deny⟩]
  parseIP _ := true
  contains _ _ := false
  banDuration level := min (minutes 1440) (minutes (5 * 2 ^ level))

def State.initial : State := ⟨[], KeyTable.empty⟩

def badPassword (ip username : Text) : Event := .login ip username (.failure "bad_password".toList)

/-- One attempt from the denied address and one failure from another: the
first one may be deleted. -/
theorem rejected_invisible_iff_sample :
    keptOutputs sampleGuard State.initial
        [(true, 0, badPassword "10.0.0.9".toList "alice".toList),
          (false, second, badPassword "10.0.0.1".toList "alice".toList)] =
      outputs sampleGuard State.initial [(second, badPassword "10.0.0.1".toList "alice".toList)] := by
  refine (rejected_invisible_iff sampleGuard State.initial [(true, 0, badPassword "10.0.0.9".toList "alice".toList),
    (false, second, badPassword "10.0.0.1".toList "alice".toList)] ⟨fun _ => ?_, ?_, trivial⟩).mpr
      ⟨?_, fun _ => ?_, trivial⟩
  · decide +kernel
  · exact fun kept => by cases kept
  · exact fun kept => by cases kept
  · decide +kernel

/-- Two attempts from the denied address: the first failure from another one
is a ban of the name, and none without them. -/
theorem rejected_attempts_ban :
    (rejects sampleGuard State.initial (0, badPassword "10.0.0.9".toList "alice".toList) = true ∧
      rejects sampleGuard (step sampleGuard State.initial (0, badPassword "10.0.0.9".toList "alice".toList))
        (second, badPassword "10.0.0.9".toList "alice".toList) = true) ∧
    (keptOutputs sampleGuard State.initial
        [(true, 0, badPassword "10.0.0.9".toList "alice".toList),
          (true, second, badPassword "10.0.0.9".toList "alice".toList),
          (false, 2 * second, badPassword "10.0.0.1".toList "alice".toList)]).map (·.bans) =
      [[⟨.username "alice".toList, 2 * second, 0, 2 * second + minutes 5⟩]] ∧
    (outputs sampleGuard State.initial [(2 * second, badPassword "10.0.0.1".toList "alice".toList)]).map (·.bans) =
      [[]] := by
  decide +kernel

end Protean.BruteForce
