import Protean.Cert.Race

/- What the lock is good for: a call that runs alone does what the provider's
method does, and calls that all hold the lock lose nothing. -/
namespace Protean.Cert

open Proc Publish

section
variable (crypto : Crypto) (env : Env) (kind : Kind)

/-- What `RemovePeer` does after the revocation. -/
def dropPeer (id : Text) : Proc State Unit := do
  Proc.when (kind = .openvpn) (removeCCD env id)
  deleteClient env id
  Proc.when (kind = .ikev2) (Proc.guard env.applyClients)

def afterList : Option Text → Proc State Unit
  | none => pure ()
  | some id => dropPeer env kind id

/-- The part of its method that a call has yet to do. -/
def rest (call : Call) : Stage → Proc State Unit
  | .waiting =>
    match call with
    | .rebuildCRL => rebuild env (getCA crypto env)
    | .removePeer id => removePeer crypto env (getCA crypto env) kind id
  | .find id => removePeer crypto env (getCA crypto env) kind id
  | .record id serial => do
    addRevokedCert env (Text.itoa serial) id
    let ca ← getCA crypto env
    rebuildCRL env ca
    dropPeer env kind id
  | .authority peer => do
    let ca ← getCA crypto env
    rebuildCRL env ca
    afterList env kind peer
  | .list peer ca => do
    rebuildCRL env ca
    afterList env kind peer
  | .number peer ca rows => do
    let number ← nextCRLNumber env
    Proc.write env.writeCRL fun s => { s with crl := some ⟨ca, crlEntries rows, number⟩ }
    afterList env kind peer
  | .write peer ca rows number => do
    Proc.write env.writeCRL fun s => { s with crl := some ⟨ca, crlEntries rows, number⟩ }
    afterList env kind peer
  | .removeFile id => dropPeer env kind id
  | .delete id => do
    deleteClient env id
    Proc.when (kind = .ikev2) (Proc.guard env.applyClients)
  | .returned => pure ()

end

/-- How many steps a call may still take. -/
def Stage.steps : Stage → Nat
  | .waiting => 9
  | .find _ => 8
  | .record _ _ => 7
  | .authority _ => 6
  | .list _ _ => 5
  | .number _ _ _ => 4
  | .write _ _ _ _ => 3
  | .removeFile _ => 2
  | .delete _ => 1
  | .returned => 0

namespace Race

section
variable {crypto : Crypto} {kind : Kind} {calls : Nat → Call} {w : Race} {i now : Nat}

theorem exec_getClient (s : State) (id : Text) : (getClient { now := now } id).exec s = (s.clients.get id, s) := rfl

theorem exec_removePeer_missing {s : State} {id : Text} (missing : s.clients.get id = none) :
    (removePeer crypto { now := now } (getCA crypto { now := now }) kind id).exec s =
      (dropPeer { now := now } kind id).exec s := by
  rw [removePeer, exec_bind, revoke, exec_bind, exec_attempt, exec_getClient, missing]
  rfl

theorem exec_removePeer_found (crypto : Crypto) (kind : Kind) (now : Nat) {s : State} {id : Text} {row : Client}
    (found : s.clients.get id = some row) :
    ((removePeer crypto { now := now } (getCA crypto { now := now }) kind id).exec s).2 =
      match crypto.serial row.certPEM with
      | none => s
      | some serial => ((rest crypto { now := now } kind .rebuildCRL (.record id serial)).exec s).2 := by
  rw [removePeer, exec_bind, revoke, exec_bind, exec_attempt, exec_getClient, found]
  dsimp only
  rw [exec_lift_bind]
  cases crypto.serial row.certPEM with
  | none => rfl
  | some serial =>
    dsimp only [rest]
    simp only [exec_bind]
    rcases (addRevokedCert { now := now } (Text.itoa serial) id).exec s with ⟨_ | _, s'⟩
    · rfl
    · dsimp only
      rcases (getCA crypto { now := now }).exec s' with ⟨_ | ca, s''⟩ <;> rfl

/-- What a call has done and what it has yet to do are its method, at every step. -/
theorem rest_step (free : w.stages i = .waiting → w.holder = none) :
    ((rest crypto { now := now } kind (calls i) ((step crypto kind calls w (i, now)).stages i)).exec
        (step crypto kind calls w (i, now)).state).2 =
      ((rest crypto { now := now } kind (calls i) (w.stages i)).exec w.state).2 := by
  have own : ∀ (stages : Nat → Stage) (stage : Stage) (s : State),
      ((rest crypto { now := now } kind (calls i) (Function.update stages i stage i)).exec s).2 =
        ((rest crypto { now := now } kind (calls i) stage).exec s).2 := by
    intro stages stage s
    rw [Function.update_self]
  unfold step
  dsimp only
  cases here : w.stages i with
  | waiting =>
    dsimp only
    cases call : calls i with
    | rebuildCRL =>
      rw [call] at own
      refine (own w.stages (.authority none) w.state).trans ?_
      dsimp only [rest, rebuild]
      simp only [exec_bind]
      rcases (getCA crypto { now := now }).exec w.state with ⟨_ | ca, s⟩ <;> rfl
    | removePeer id =>
      rw [call] at own
      dsimp only
      rw [if_pos (free here)]
      exact own w.stages (.find id) w.state
  | find id =>
    dsimp only
    rw [exec_getClient]
    cases found : w.state.clients.get id with
    | none =>
      refine (own w.stages (.removeFile id) w.state).trans ?_
      exact congrArg Prod.snd (exec_removePeer_missing found).symm
    | some row =>
      dsimp only
      have method := exec_removePeer_found crypto kind now found
      cases read : crypto.serial row.certPEM <;> rw [read] at method <;> exact (own w.stages _ w.state).trans method.symm
  | record id serial => exact own w.stages (.authority (some id)) _
  | authority peer =>
    dsimp only [rest]
    rw [exec_bind]
    rcases (getCA crypto { now := now }).exec w.state with ⟨_ | ca, s⟩
    · exact own w.stages .returned s
    · exact own w.stages (.list peer ca) s
  | list peer ca => exact own w.stages (.number peer ca w.state.revoked) w.state
  | number peer ca rows => exact own w.stages (.write peer ca rows _) _
  | write peer ca rows n =>
    cases peer with
    | none => exact own w.stages .returned _
    | some id => exact own w.stages (.removeFile id) _
  | removeFile id =>
    refine (own w.stages (.delete id) _).trans ?_
    cases kind <;> rfl
  | delete id =>
    refine (own w.stages .returned _).trans ?_
    cases kind <;> rfl
  | returned =>
    dsimp only
    rw [here]

theorem step_of_returned (ended : w.stages i = .returned) : step crypto kind calls w (i, now) = w := by simp [step, ended]

/-- A call that is not kept waiting comes nearer to its end, and keeps the lock till then. -/
theorem step_goes (crypto : Crypto) (kind : Kind) (calls : Nat → Call) (now : Nat) (running : w.stages i ≠ .returned)
    (free : w.stages i = .waiting → w.holder = none) :
    ∃ stage, (step crypto kind calls w (i, now)).stages = Function.update w.stages i stage ∧ stage ≠ .waiting ∧
      stage.steps < (w.stages i).steps ∧ (stage = .returned ∨ (step crypto kind calls w (i, now)).holder = some i ∨
        (step crypto kind calls w (i, now)).holder = w.holder ∧ (w.stages i = .waiting → calls i = .rebuildCRL)) := by
  unfold step
  dsimp only
  cases here : w.stages i with
  | waiting =>
    dsimp only
    cases calls i with
    | rebuildCRL => exact ⟨_, rfl, nofun, Nat.le_of_ble_eq_true rfl, .inr (.inr ⟨rfl, fun _ => rfl⟩)⟩
    | removePeer id =>
      dsimp only
      rw [if_pos (free here)]
      exact ⟨_, rfl, nofun, Nat.le_of_ble_eq_true rfl, .inr (.inl rfl)⟩
  | find id =>
    dsimp only
    split
    · exact ⟨_, rfl, nofun, Nat.le_of_ble_eq_true rfl, .inr (.inr ⟨rfl, nofun⟩)⟩
    · split
      · exact ⟨_, rfl, nofun, Nat.le_of_ble_eq_true rfl, .inl rfl⟩
      · exact ⟨_, rfl, nofun, Nat.le_of_ble_eq_true rfl, .inr (.inr ⟨rfl, nofun⟩)⟩
  | record id serial | list peer ca | number peer ca rows | removeFile id =>
    exact ⟨_, rfl, nofun, Nat.le_of_ble_eq_true rfl, .inr (.inr ⟨rfl, nofun⟩)⟩
  | authority peer =>
    dsimp only
    split
    · exact ⟨_, rfl, nofun, Nat.le_of_ble_eq_true rfl, .inl rfl⟩
    · exact ⟨_, rfl, nofun, Nat.le_of_ble_eq_true rfl, .inr (.inr ⟨rfl, nofun⟩)⟩
  | write peer ca rows n =>
    cases peer with
    | none => exact ⟨_, rfl, nofun, Nat.le_of_ble_eq_true rfl, .inl rfl⟩
    | some id => exact ⟨_, rfl, nofun, Nat.le_of_ble_eq_true rfl, .inr (.inr ⟨rfl, nofun⟩)⟩
  | delete id => exact ⟨_, rfl, nofun, Nat.le_of_ble_eq_true rfl, .inl rfl⟩
  | returned => exact absurd here running

end

end Race

def Call.op : Call → Op
  | .rebuildCRL => .rebuildCRL
  | .removePeer id => .removePeer id

/-- A call that nothing comes between returns, and does what the method does. -/
theorem alone_returns (crypto : Crypto) (kind : Kind) (calls : Nat → Call) (s : State) (i now : Nat) :
    let w := Race.run crypto kind calls s (List.replicate 9 (i, now))
    w.stages i = .returned ∧ w.state = ((run crypto { now := now } kind (calls i).op).exec s).2 := by
  intro w
  obtain ⟨bound, same⟩ : (w.stages i).steps ≤ 0 ∧ ((rest crypto { now := now } kind (calls i) (w.stages i)).exec w.state).2 =
      ((rest crypto { now := now } kind (calls i) .waiting).exec s).2 := by
    refine Run.replicate (P := fun w : Race => w.stages i = .waiting → w.holder = none) (m := fun w => (w.stages i).steps)
      (f := fun w => ((rest crypto { now := now } kind (calls i) (w.stages i)).exec w.state).2)
      (fun w free => ⟨fun waiting => ?_, ?_, Race.rest_step free⟩) (fun _ => rfl) 9
    all_goals by_cases ended : w.stages i = .returned
    · rw [Race.step_of_returned ended, ended] at waiting
      cases waiting
    · obtain ⟨stage, stages, begun, -⟩ := Race.step_goes crypto kind calls now ended free
      rw [stages, Function.update_self] at waiting
      exact absurd waiting begun
    · rw [Race.step_of_returned ended, ended]
      exact Nat.zero_le _
    · obtain ⟨stage, stages, -, nearer, -⟩ := Race.step_goes crypto kind calls now ended free
      rw [stages, Function.update_self]
      exact Nat.le_sub_one_of_lt nearer
  have finished : w.stages i = .returned := by
    generalize w.stages i = stage at bound
    cases stage <;> first | rfl | (simp [Stage.steps] at bound)
  rw [finished] at same
  refine ⟨finished, same.trans ?_⟩
  cases calls i <;> rfl

namespace Race

/-- Between its first step and its return. -/
def Active (w : Race) (i : Nat) : Prop := w.stages i ≠ .waiting ∧ w.stages i ≠ .returned

/-- Only the holder of the lock is under way. -/
def Exclusive (w : Race) : Prop := ∀ i, w.Active i → w.holder = some i

section
variable {crypto : Crypto} {kind : Kind} {calls : Nat → Call} {s : State} {w w' : Race} {i now : Nat}

variable {j : Nat}

theorem Exclusive.eq (exclusive : w.Exclusive) (active : w.Active i) (other : w.Active j) : j = i :=
  Option.some.inj ((exclusive j other).symm.trans (exclusive i active))

variable {stage : Stage}

theorem Exclusive.step (exclusive : w.Exclusive) (locked : calls i ≠ .rebuildCRL) :
    (step crypto kind calls w (i, now)).Exclusive := by
  by_cases ended : w.stages i = .returned
  · rwa [step_of_returned ended]
  by_cases kept : w.stages i = .waiting ∧ w.holder ≠ none
  · cases call : calls i with
    | rebuildCRL => exact absurd call locked
    | removePeer id => simpa [Race.step, kept, call] using exclusive
  obtain ⟨stage, stages, -, -, after⟩ := step_goes crypto kind calls now ended fun waiting =>
    by_contra fun held => kept ⟨waiting, held⟩
  rintro j ⟨begun, running⟩
  rw [stages] at begun running
  by_cases own : j = i
  · rw [own, Function.update_self] at running
    rw [own]
    rcases after.resolve_left running with mine | ⟨same, first⟩
    · exact mine
    · exact same ▸ exclusive i ⟨fun waiting => locked (first waiting), ended⟩
  · rw [Function.update_of_ne own] at begun running
    have held := exclusive j ⟨begun, running⟩
    have mine := exclusive i ⟨fun waiting => kept ⟨waiting, by rw [held]; exact Option.some_ne_none j⟩, ended⟩
    exact absurd (Option.some.inj (held.symm.trans mine)) own

/-- What is true of the log as far as one call has come, if no other is in between. -/
def Due (log : List (Act Nat Int)) (i : Nat) : Phase → Prop
  | .early | .done => InOrder log ∧ Fresh log
  | .owing => InOrder log
  | .listed => InOrder log ∧ since log i = []
  | .numbered => drawers log = publishers log ++ [i] ∧ since log i = []

/-- Before the revocation or after the list. -/
def Settled (stage : Stage) : Prop := stage.phase = .early ∨ stage.phase = .done

def Serial (w : Race) : Prop := ∀ i, (∀ j, j ≠ i → Settled (w.stages j)) → Due w.log i (w.stages i).phase

theorem due_of_settled {log : List (Act Nat Int)} (settled : Settled stage) :
    Due log i stage.phase ↔ InOrder log ∧ Fresh log := by
  rcases settled with phase | phase <;> rw [phase] <;> rfl

theorem active_of_not_settled (between : ¬ Settled (w.stages i)) : w.Active i := by
  constructor <;> intro here <;> rw [here] at between <;> exact between (by simp [Settled, Stage.phase])

/-- A step is right if it is right for the call that makes it. -/
theorem Serial.of_own (serial : w.Serial) (exclusive : w.Exclusive) (stages : w'.stages = Function.update w.stages i stage)
    (active : w'.log = w.log ∨ w.Active i) (own : Due w.log i (w.stages i).phase → Due w'.log i stage.phase) : w'.Serial := by
  have here : w'.stages i = stage := by rw [stages, Function.update_self]
  have there : ∀ j, j ≠ i → w'.stages j = w.stages j := fun j other => by rw [stages, Function.update_of_ne other]
  intro k others
  by_cases mine : k = i
  · rw [mine, here]
    exact own (serial i fun j other => there j other ▸ others j (mine ▸ other))
  rw [there k mine]
  by_cases idle : Settled (w.stages k)
  · have due := own (serial i fun j other => by
      by_cases same : j = k
      · exact same ▸ idle
      · exact there j other ▸ others j same)
    exact (due_of_settled idle).mpr ((due_of_settled (here ▸ others i (Ne.symm mine))).mp due)
  · -- the other call holds the lock, so this one has not begun
    have holds := active_of_not_settled idle
    rw [active.resolve_right fun active => mine (exclusive.eq active holds)]
    refine serial k fun j other => ?_
    by_cases same : j = i
    · exact by_contra fun between => other (exclusive.eq holds (active_of_not_settled between))
    · exact there j same ▸ others j other

theorem Serial.moves (serial : w.Serial) (exclusive : w.Exclusive) (reads : Reads w)
    (moves : Moves calls w i now w') : w'.Serial := by
  have inOrder : ∀ a : Act Nat Int, drawers [a] = [] → publishers [a] = [] → InOrder w.log → InOrder (w.log ++ [a]) := by
    intro a drawn published kept
    rw [InOrder, publishers_concat, drawers_concat, kept, drawn, published]
  cases moves with
  | stays => exact serial
  | @quiet w' stage quiet =>
    refine serial.of_own exclusive quiet.stages (.inl quiet.log) fun due => ?_
    rw [quiet.log]
    rcases quiet.passes.forward with same | ⟨early, owing | done⟩
    · exact same ▸ due
    · rw [early] at due
      exact owing ▸ due.1
    · rw [early] at due
      exact done ▸ due
  | @record id n here new =>
    refine serial.of_own exclusive rfl (.inr (by constructor <;> simp [here])) fun due => ?_
    rw [here] at due
    exact inOrder _ rfl rfl due.1
  | @list peer ca here =>
    refine serial.of_own exclusive rfl (.inr (by constructor <;> simp [here])) fun due => ?_
    rw [here] at due
    exact ⟨inOrder _ rfl rfl due, since_list fun listed => (reads.read i listed).2 (congrArg Stage.phase here)⟩
  | @draw peer ca rows here =>
    refine serial.of_own exclusive rfl (.inr (by constructor <;> simp [here])) fun due => ?_
    rw [here] at due
    obtain ⟨kept, current⟩ := due
    refine ⟨?_, (since_concat (reads.seen i rows (congrArg Stage.rows here)).1 _).trans (by rw [current]; rfl)⟩
    rw [InOrder] at kept
    exact (drawers_concat _ _).trans (kept ▸ congrArg (· ++ [i]) ((publishers_concat ..).trans (List.append_nil _)).symm)
  | @publish peer ca rows n stage holder here finished =>
    refine serial.of_own exclusive rfl (.inr (by constructor <;> simp [here])) fun due => ?_
    rw [here] at due
    rw [finished]
    obtain ⟨kept, current⟩ := due
    refine ⟨?_, fun j last => ?_⟩
    · exact (publishers_concat _ _).trans (kept.symm.trans ((drawers_concat ..).trans (List.append_nil _)).symm)
    · have published : publishers (w.log ++ [.publish i]) = publishers w.log ++ [i] := publishers_concat _ _
      obtain rfl : i = j := Option.some.inj (List.getLast?_concat.symm.trans ((congrArg _ published).symm.trans last))
      exact (since_concat (reads.seen i rows (congrArg Stage.rows here)).1 _).trans (by rw [current]; rfl)

end

end Race

/-- If every call holds the lock, no revocation is lost and the numbers increase. -/
theorem removals_keep_revocations (crypto : Crypto) (kind : Kind) {calls : Nat → Call} {s : State} (ready : Ready s)
    (full : Full s) (locked : ∀ i, calls i ≠ .rebuildCRL) (turns : List (Nat × Nat))
    (all : ∀ t ∈ turns, (Race.run crypto kind calls s turns).stages t.1 = .returned) :
    Full (Race.run crypto kind calls s turns).state ∧ (Race.run crypto kind calls s turns).written.Pairwise (· < ·) := by
  have traced := Race.traced_run crypto kind calls ready turns
  have serial : (Race.run crypto kind calls s turns).Exclusive ∧ (Race.run crypto kind calls s turns).Serial := by
    clear all traced
    induction turns using List.reverseRecOn with
    | nil => exact ⟨fun i active => absurd rfl active.1, fun _ _ => ⟨rfl, nofun⟩⟩
    | append_singleton turns turn ih =>
      have before := Race.traced_run crypto kind calls ready turns
      unfold Race.run at ih before ⊢
      rw [Run.after_concat]
      exact ⟨ih.1.step (locked turn.1), ih.2.moves ih.1 before.reads (Race.step_moves before.ready.memory)⟩
  have finished : ∀ i, Race.Settled ((Race.run crypto kind calls s turns).stages i) := fun i =>
    (traced.settled all i).1.imp (congrArg Stage.phase) (congrArg Stage.phase)
  obtain ⟨order, fresh⟩ := (Race.due_of_settled (finished 0)).mp (serial.2 0 fun j _ => finished j)
  exact ⟨(traced.full_iff_fresh (.inl full) all).mpr fresh, (traced.increasing_iff_inOrder all).mpr order⟩

def removals (_ : Nat) : Call := .removePeer "bob".toList

/-- The second removal comes while the first has the lock. -/
def twoRemovals : List (Nat × Nat) := [(0, 0), (1, 0)] ++ List.replicate 8 (0, 0) ++ List.replicate 9 (1, 0)

theorem removals_keep_revocations_sample :
    let w := Race.run sampleCrypto .openvpn removals importedState twoRemovals
    w.state.revoked.length = 1 ∧ Full w.state ∧ w.written.Pairwise (· < ·) := by
  intro w
  have run : w.state.revoked.length = 1 ∧ ∀ t ∈ twoRemovals, w.stages t.1 = .returned := by decide +kernel
  have locked : ∀ i, removals i ≠ .rebuildCRL := fun _ => nofun
  exact ⟨run.1, removals_keep_revocations sampleCrypto .openvpn importedState_ready (fun _ => nofun) locked _ run.2⟩

end Protean.Cert
