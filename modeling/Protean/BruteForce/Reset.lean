import Protean.BruteForce.Rejected

namespace Protean.BruteForce

section
variable (g : Guard)

/-- A login that succeeds for the key, or an unban of it. -/
def resets (s : State) (key : Key) : Int × Event → Bool
  | (now, .login ip username .success) =>
    (checkLogin g s.bans now ip username).allowed ∧ g.settings.enabled ∧ key ∈ tracked g ip username
  | (_, .unban key') => key' = key
  | _ => false

/-- The failed credential checks of a run that count for a key. -/
def genuineFailures (key : Key) (since : Int) : State → List (Int × Event) → Nat
  | _, [] => 0
  | s, e :: es =>
    (if rejects g s e then 0 else countRecentFailures (recorded g s e) key since) +
      genuineFailures key since (step g s e) es

/-- No rejection of the run counts for the key. -/
def Unspoiled (key : Key) (since : Int) : State → List (Int × Event) → Prop :=
  Run.Meets (step g) fun s e => rejects g s e = true → countRecentFailures (recorded g s e) key since = 0

end

section
variable {g : Guard} {s : State} {key : Key} {now since : Int}

theorem countRecentFailures_append (attempts attempts' : List Attempt) :
    countRecentFailures (attempts ++ attempts') key since =
      countRecentFailures attempts key since + countRecentFailures attempts' key since := by
  simp [countRecentFailures]

/-- What counts after a run is what counted before it and its own failures. -/
theorem count_after (es : List (Int × Event)) (unspoiled : Unspoiled g key since s es) :
    countRecentFailures (Run.after (step g) s es).attempts key since =
      countRecentFailures s.attempts key since + genuineFailures g key since s es := by
  induction es generalizing s with
  | nil => rfl
  | cons e es ih =>
    obtain ⟨first, rest⟩ := unspoiled
    have own : (if rejects g s e then 0 else countRecentFailures (recorded g s e) key since) =
        countRecentFailures (recorded g s e) key since := by
      split
      · rename_i rejected
        exact (first rejected).symm
      · rfl
    rw [Run.after_cons, ih rest, step_attempts, countRecentFailures_append, genuineFailures, own, Nat.add_assoc]

theorem genuineFailures_concat (es : List (Int × Event)) (e : Int × Event) :
    genuineFailures g key since s (es ++ [e]) =
      genuineFailures g key since s es + genuineFailures g key since (Run.after (step g) s es) [e] := by
  induction es generalizing s with
  | nil => exact (Nat.zero_add _).symm
  | cons e' es ih => rw [List.cons_append, genuineFailures, genuineFailures, ih, Run.after_cons, Nat.add_assoc]

theorem tracked_nodup (ip username : Text) : (tracked g ip username).Nodup := by
  unfold tracked
  split <;> split <;> simp

theorem maybeEscalate_get_of_ne {key' : Key} (other : key ≠ key') :
    (maybeEscalate g now key' s).1.bans.get key = s.bans.get key := by
  unfold maybeEscalate
  split
  · exact KeyTable.get_upsert_of_ne _ _ other
  · rfl

theorem maybeEscalate_ban {b : IssuedBan} (issued : b ∈ (maybeEscalate g now key s).2) :
    atThreshold g s.attempts now key = true ∧
      b = ⟨key, now, nextLevel g s.bans now key, now + g.banDuration (nextLevel g s.bans now key)⟩ := by
  unfold maybeEscalate at issued
  split at issued
  · rename_i reached
    exact ⟨reached, (Option.mem_some.mp issued).symm⟩
  · cases issued

/-- A ban that is issued has the level that its row calls for. -/
theorem escalateAll_ban {keys : List Key} (distinct : keys.Nodup) {b : IssuedBan}
    (issued : b ∈ (escalateAll g now keys s).2) :
    atThreshold g s.attempts now b.key = true ∧ b.key ∈ keys ∧
      b = ⟨b.key, now, nextLevel g s.bans now b.key, now + g.banDuration (nextLevel g s.bans now b.key)⟩ := by
  induction keys generalizing s with
  | nil => cases issued
  | cons key keys ih =>
    obtain ⟨fresh, distinct⟩ := List.nodup_cons.mp distinct
    simp only [escalateAll, List.mem_append, Option.mem_toList] at issued
    rcases issued with first | later
    · obtain ⟨reached, rfl⟩ := maybeEscalate_ban first
      exact ⟨reached, List.mem_cons_self, rfl⟩
    · obtain ⟨reached, member, same⟩ := ih distinct later
      have other : b.key ≠ key := fun here => fresh (here ▸ member)
      have level : nextLevel g (maybeEscalate g now key s).1.bans now b.key = nextLevel g s.bans now b.key := by
        rw [nextLevel, nextLevel, maybeEscalate_get_of_ne other]
      rw [maybeEscalate_attempts] at reached
      rw [level] at same
      exact ⟨reached, List.mem_cons_of_mem _ member, same⟩

/-- A key that gets no ban keeps its row. -/
theorem escalateAll_get {keys : List Key} (spared : ∀ b ∈ (escalateAll g now keys s).2, b.key ≠ key) :
    (escalateAll g now keys s).1.bans.get key = s.bans.get key := by
  induction keys generalizing s with
  | nil => rfl
  | cons key' keys ih =>
    simp only [escalateAll, List.mem_append, Option.mem_toList] at spared ⊢
    refine (ih fun b later => spared b (.inr later)).trans ?_
    by_cases other : key = key'
    · subst other
      unfold maybeEscalate at spared ⊢
      split
      · rename_i reached
        exact absurd rfl (spared _ (.inl (by rw [if_pos reached])))
      · rfl
    · exact maybeEscalate_get_of_ne other

theorem clearAll_get (keys : List Key) :
    (clearAll now keys s).bans.get key = if key ∈ keys then some ⟨now - second, 0⟩ else s.bans.get key := by
  simp only [clearAll]
  generalize s.bans = bans
  induction keys generalizing bans with
  | nil => rfl
  | cons key' keys ih =>
    rw [List.foldl_cons, ih]
    by_cases later : key ∈ keys
    · rw [if_pos later, if_pos (List.mem_cons_of_mem _ later)]
    · rw [if_neg later]
      by_cases here : key = key'
      · subst here
        rw [KeyTable.get_upsert_self, if_pos List.mem_cons_self]
      · rw [KeyTable.get_upsert_of_ne _ _ here, if_neg fun member => (List.mem_cons.mp member).elim here later]

theorem clearLoginBanState_get {key' : Key} :
    (clearLoginBanState now key' s).bans.get key =
      if key' = key then (s.bans.get key).map fun _ => ⟨now, 0⟩ else s.bans.get key := by
  unfold clearLoginBanState
  split
  · rename_i absent
    split
    · rename_i same
      rw [← same, absent]
      rfl
    · rfl
  · rename_i ban there
    split
    · rename_i same
      rw [← same, there, KeyTable.get_upsert_self]
      rfl
    · rename_i other
      exact KeyTable.get_upsert_of_ne _ _ fun same => other same.symm

end

/-- The level of the key is zero, if it has a row at all. -/
def AtZero (key : Key) (s : State) : Prop := ∀ ban, s.bans.get key = some ban → ban.escalationLevel = 0

/-- The last ban of the key, or its reset, is longer ago than the time after
which levels start again. -/
def Rested (g : Guard) (now : Int) (key : Key) (s : State) : Prop :=
  ∀ ban, s.bans.get key = some ban → minutes g.settings.escalationResetMinutes < now - ban.bannedUntil

section
variable {g : Guard} {s : State} {key : Key} {e : Int × Event}

theorem nextLevel_eq_zero_iff {now : Int} : nextLevel g s.bans now key = 0 ↔ Rested g now key s := by
  unfold nextLevel Rested
  cases s.bans.get key with
  | none => simp
  | some prev =>
    simp only [Option.some.injEq, forall_eq']
    split
    · rename_i recent
      exact ⟨fun zero => absurd zero (Nat.succ_ne_zero _), fun rested => absurd recent (not_le.mpr rested)⟩
    · rename_i rested
      exact ⟨fun _ => not_le.mp rested, fun _ => rfl⟩

theorem nextLevel_of_atZero {now : Int} (zero : AtZero key s) : nextLevel g s.bans now key ≤ 1 := by
  unfold nextLevel
  split
  · exact Nat.zero_le 1
  · rename_i prev there
    rw [zero prev there]
    split
    · exact le_rfl
    · exact Nat.zero_le 1

/-- Every ban comes from a failed credential check of its key. -/
theorem handle_ban {b : IssuedBan} (issued : b ∈ (handle g s e).2.bans) :
    rejects g s e = false ∧ atThreshold g (s.attempts ++ recorded g s e) e.1 b.key = true ∧
      b = ⟨b.key, e.1, nextLevel g s.bans e.1 b.key, e.1 + g.banDuration (nextLevel g s.bans e.1 b.key)⟩ := by
  revert b
  refine handle_cases (motive := fun e result => ∀ {b : IssuedBan}, b ∈ result.2.bans → rejects g s e = false ∧
    atThreshold g (s.attempts ++ recorded g s e) e.1 b.key = true ∧
      b = ⟨b.key, e.1, nextLevel g s.bans e.1 b.key, e.1 + g.banDuration (nextLevel g s.bans e.1 b.key)⟩)
    ?unban ?rejected ?pending ?success ?disabled ?failure e
  case failure =>
    intro now ip username reason allowed _ b issued
    obtain ⟨reached, _, same⟩ := escalateAll_ban (tracked_nodup ip username) issued
    simp only [rejects, recorded, allowed, if_true]
    exact ⟨rfl, reached, same⟩
  -- nothing else issues a ban
  all_goals
    intros
    contradiction

theorem step_of_resets (reset : resets g s key e = true) :
    AtZero key (step g s e) ∧ ∀ since, countRecentFailures (recorded g s e) key since = 0 := by
  obtain ⟨now, event⟩ := e
  cases event with
  | unban key' =>
    obtain rfl : key' = key := of_decide_eq_true reset
    refine ⟨fun ban there => ?_, fun since => rfl⟩
    have row : (s.bans.get key').map (fun _ => (⟨now, 0⟩ : BanState)) = some ban := by
      rw [← there, step, handle, clearLoginBanState_get, if_pos rfl]
    obtain ⟨_, _, rfl⟩ := Option.map_eq_some_iff.mp row
    rfl
  | login ip username credentials =>
    cases credentials with
    | pending => cases reset
    | failure reason => cases reset
    | success =>
      obtain ⟨allowed, enabled, member⟩ := of_decide_eq_true reset
      constructor
      · intro ban there
        rw [step, handle_success allowed, if_pos enabled, clearAll_get, if_pos member] at there
        obtain rfl := Option.some.inj there
        rfl
      · intro since
        simp [recorded, allowed, countRecentFailures, Attempt.counts]

/-- An event that issues no ban of the key leaves its row, or resets it. -/
theorem step_atZero (zero : AtZero key s) (spared : ∀ b ∈ (handle g s e).2.bans, b.key ≠ key) :
    AtZero key (step g s e) := by
  revert spared
  refine handle_cases (motive := fun e result => (∀ b ∈ result.2.bans, b.key ≠ key) → AtZero key result.1)
    ?unban ?rejected ?pending ?success ?disabled ?failure e
  case unban =>
    intro now key' _ ban there
    rw [clearLoginBanState_get] at there
    split at there
    · obtain ⟨_, _, rfl⟩ := Option.map_eq_some_iff.mp there
      rfl
    · exact zero ban there
  case rejected => exact fun now ip username credentials _ _ => zero
  case pending => exact fun now ip username _ _ => zero
  case success =>
    intro now ip username _ _
    split
    · intro ban there
      rw [clearAll_get] at there
      split at there
      · obtain rfl := Option.some.inj there
        rfl
      · exact zero ban there
    · exact zero
  case disabled => exact fun now ip username reason _ _ _ => zero
  case failure =>
    intro now ip username reason _ _ spared ban there
    rw [escalateAll_get spared] at there
    exact zero ban there

theorem after_atZero (es : List (Int × Event)) (zero : AtZero key s)
    (spared : ∀ out ∈ outputs g s es, ∀ b ∈ out.bans, b.key ≠ key) : AtZero key (Run.after (step g) s es) := by
  induction es generalizing s with
  | nil => exact zero
  | cons e es ih =>
    exact ih (step_atZero zero (spared _ List.mem_cons_self))
      fun out later => spared out (List.mem_cons_of_mem _ later)

end

/-- The next ban of a key after a success or an unban: if no failure from
before it and no rejection is left in the window, it takes as many further
failures as the threshold; its level is at most one, and it is the ban of a key
without a history exactly when the row of the key has rested. -/
theorem ban_after_reset (g : Guard) (s : State) (key : Key) (e₀ e : Int × Event) (more : List (Int × Event))
    (b : IssuedBan) (reset : resets g s key e₀ = true)
    (next : ∀ out ∈ outputs g (step g s e₀) more, ∀ b ∈ out.bans, b.key ≠ key)
    (issued : b ∈ (handle g (Run.after (step g) (step g s e₀) more) e).2.bans) (own : b.key = key)
    (cleared : countRecentFailures s.attempts key (e.1 - minutes g.settings.countWindowMinutes) = 0)
    (unspoiled : Unspoiled g key (e.1 - minutes g.settings.countWindowMinutes) (step g s e₀) more) :
    g.settings.failThreshold ≤
        genuineFailures g key (e.1 - minutes g.settings.countWindowMinutes) (step g s e₀) (more ++ [e]) ∧
      b.level ≤ 1 ∧
      (b = ⟨key, e.1, 0, e.1 + g.banDuration 0⟩ ↔ Rested g e.1 key (Run.after (step g) (step g s e₀) more)) := by
  subst own
  obtain ⟨allowed, reached, same⟩ := handle_ban issued
  obtain ⟨zero, none⟩ := step_of_resets reset
  refine ⟨?_, ?_, ?_⟩
  · have enough := of_decide_eq_true reached
    rw [countRecentFailures_append, count_after more unspoiled, step_attempts, countRecentFailures_append, cleared,
      none, Nat.zero_add] at enough
    rw [genuineFailures_concat, genuineFailures, genuineFailures, allowed]
    exact enough
  · rw [same]
    exact nextLevel_of_atZero (after_atZero more zero next)
  · rw [← nextLevel_eq_zero_iff]
    constructor
    · intro plain
      exact (congrArg IssuedBan.level same).symm.trans (congrArg IssuedBan.level plain)
    · intro level
      rw [level] at same
      exact same

/-- A success, and three failures an hour later. -/
theorem ban_after_reset_sample :
    (3 : Int) ≤ genuineFailures sampleGuard (.username "alice".toList) (minutes 57 + 2 * second)
        (step sampleGuard State.initial (0, .login "10.0.0.1".toList "alice".toList .success))
        [(minutes 62, badPassword "10.0.0.1".toList "alice".toList),
          (minutes 62 + second, badPassword "10.0.0.1".toList "alice".toList),
          (minutes 62 + 2 * second, badPassword "10.0.0.1".toList "alice".toList)] ∧
      Rested sampleGuard (minutes 62 + 2 * second) (.username "alice".toList)
        (Run.after (step sampleGuard) State.initial
          [(0, .login "10.0.0.1".toList "alice".toList .success),
            (minutes 62, badPassword "10.0.0.1".toList "alice".toList),
            (minutes 62 + second, badPassword "10.0.0.1".toList "alice".toList)]) := by
  obtain ⟨enough, _, exact_level⟩ := ban_after_reset sampleGuard State.initial (.username "alice".toList)
    (0, .login "10.0.0.1".toList "alice".toList .success)
    (minutes 62 + 2 * second, badPassword "10.0.0.1".toList "alice".toList)
    [(minutes 62, badPassword "10.0.0.1".toList "alice".toList),
      (minutes 62 + second, badPassword "10.0.0.1".toList "alice".toList)]
    ⟨.username "alice".toList, minutes 62 + 2 * second, 0, minutes 67 + 2 * second⟩ (by decide +kernel)
    (by decide +kernel) (by decide +kernel) rfl (by decide +kernel)
    ⟨fun rejected => absurd rejected (by decide +kernel), fun rejected => absurd rejected (by decide +kernel), trivial⟩
  exact ⟨enough, exact_level.mp (by decide +kernel)⟩

/-- Two failures, a success, and one more failure is a ban of level one; and
after a ban and an unban one more failure is. -/
theorem reset_keeps_failures :
    ((outputs sampleGuard State.initial
        [(0, badPassword "10.0.0.1".toList "alice".toList), (second, badPassword "10.0.0.1".toList "alice".toList),
          (2 * second, .login "10.0.0.1".toList "alice".toList .success),
          (3 * second, badPassword "10.0.0.2".toList "alice".toList)]).map (·.bans) =
      [[], [], [], [⟨.username "alice".toList, 3 * second, 1, 3 * second + minutes 10⟩]]) ∧
    ((outputs sampleGuard State.initial
        [(0, badPassword "10.0.0.1".toList "alice".toList), (second, badPassword "10.0.0.2".toList "alice".toList),
          (2 * second, badPassword "10.0.0.3".toList "alice".toList), (3 * second, .unban (.username "alice".toList)),
          (4 * second, badPassword "10.0.0.4".toList "alice".toList)]).map (·.bans) =
      [[], [], [⟨.username "alice".toList, 2 * second, 0, 2 * second + minutes 5⟩], [],
        [⟨.username "alice".toList, 4 * second, 1, 4 * second + minutes 10⟩]]) := by
  decide +kernel

end Protean.BruteForce
