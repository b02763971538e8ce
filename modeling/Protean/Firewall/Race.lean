import Protean.Firewall.Rollback

open Netfilter

namespace Protean.Firewall

/-- The next command of a `firewall-confirm` under way. -/
inductive ConfirmPc
  | checkCommitted
  | checkPending
  | checkTimer
  | touch
  | stop
  | resetFailed
  | save
  | bootUnit
  | enable
  | reply
  deriving DecidableEq, Repr

/-- The next command of a `firewall-rollback` under way. -/
inductive RollbackPc
  | checkCommitted
  | checkSnapshot
  | restore
  | rm
  | reply
  deriving DecidableEq, Repr

/-- A process slot. Only the service the timer starts can be stopped with it. -/
inductive Proc
  | idle
  | confirm (pc : ConfirmPc)
  | confirmDone (reply : ConfirmReply)
  | rollback (byTimer : Bool) (pc : RollbackPc)
  | rollbackDone (reply : RollbackReply)
  | killed
  deriving DecidableEq, Repr

namespace Proc

def canStart : Proc → Bool
  | confirm _ => false
  | rollback _ _ => false
  | _ => true

/-- A rollback that has found no commit marker and not yet removed the pending
change. -/
def acting : Proc → Bool
  | rollback _ .checkSnapshot => true
  | rollback _ .restore => true
  | rollback _ .rm => true
  | _ => false

/-- A confirmation that has found a pending change and not yet set the commit
marker. -/
def opened : Proc → Bool
  | confirm .checkTimer => true
  | confirm .touch => true
  | _ => false

/-- A confirmation that has set the commit marker. -/
def closing : Proc → Bool
  | confirm .stop => true
  | confirm .resetFailed => true
  | confirm .save => true
  | confirm .bootUnit => true
  | confirm .enable => true
  | confirm .reply => true
  | _ => false

/-- One that has also saved the live rules. -/
def saved : Proc → Bool
  | confirm .bootUnit => true
  | confirm .enable => true
  | confirm .reply => true
  | _ => false

theorem saved_closing {p : Proc} (saved : p.saved = true) : p.closing = true := by
  unfold Proc.saved at saved
  split at saved <;> first | rfl | cases saved

/-- `systemctl stop` on the timer and its service. -/
def stopService : Proc → Proc
  | rollback true _ => killed
  | p => p

theorem stopService_acting {p : Proc} (quiet : p.acting = false) : p.stopService.acting = false := by
  unfold stopService
  split
  · rfl
  · exact quiet

theorem stopService_opened (p : Proc) : p.stopService.opened = p.opened := by
  unfold stopService
  split <;> rfl

theorem stopService_saved (p : Proc) : p.stopService.saved = p.saved := by
  unfold stopService
  split <;> rfl

end Proc

/-- The host with its processes. `armed` says that the timer has yet to fire;
it may stay loaded a while longer. The last two fields only record history:
what the last successful apply installed, and whether a confirmation has
answered `confirmed` since. -/
structure Race where
  host : Host
  armed : Bool
  procs : Nat → Proc
  installed : Option Ruleset
  confirmed : Bool

namespace Race

def boot (h : Host) : Race := ⟨h, false, fun _ => .idle, none, false⟩

def set (s : Race) (i : Nat) (p : Proc) : Race := { s with procs := Function.update s.procs i p }

def onHost (s : Race) (h : Host) : Race := { s with host := h }

def stopUnits (s : Race) : Race where
  host := { s.host with timerLoaded := false }
  armed := false
  procs := fun i => (s.procs i).stopService
  installed := s.installed
  confirmed := s.confirmed

/-- One command of `cmd_firewall_confirm`. -/
def confirmCommand (s : Race) (i : Nat) : ConfirmPc → Race
  | .checkCommitted =>
    s.set i (if s.host.committed then .confirmDone .alreadyConfirmed else .confirm .checkPending)
  | .checkPending =>
    s.set i (if s.host.pending.isNone then .confirmDone .noPending else .confirm .checkTimer)
  | .checkTimer =>
    s.set i (if s.host.timerLoaded then .confirm .touch else .confirmDone .windowExpired)
  | .touch => (s.onHost { s.host with committed := true }).set i (.confirm .stop)
  | .stop => s.stopUnits.set i (.confirm .resetFailed)
  | .resetFailed => s.set i (.confirm .save)
  | .save => (s.onHost { s.host with current := some s.host.live.save }).set i (.confirm .bootUnit)
  | .bootUnit => (s.onHost { s.host with bootUnit := true }).set i (.confirm .enable)
  | .enable => (s.onHost { s.host with bootEnabled := true }).set i (.confirm .reply)
  | .reply => { s.set i (.confirmDone .confirmed) with confirmed := true }

def restoreSnapshot (h : Host) : Host :=
  { h with live := (h.snapshot.map fun d => Ruleset.restore d h.live).getD h.live }

/-- One command of `cmd_firewall_rollback`. -/
def rollbackCommand (s : Race) (i : Nat) (byTimer : Bool) : RollbackPc → Race
  | .checkCommitted =>
    s.set i (if s.host.committed then .rollbackDone .alreadyConfirmed
      else .rollback byTimer .checkSnapshot)
  | .checkSnapshot =>
    s.set i (if s.host.snapshot.isNone then .rollbackDone .noSnapshot else .rollback byTimer .restore)
  | .restore => (s.onHost (restoreSnapshot s.host)).set i (.rollback byTimer .rm)
  | .rm =>
    (s.onHost { s.host with pending := none, armedAt := none, windowSecs := none }).set i
      (.rollback byTimer .reply)
  | .reply => s.set i (.rollbackDone .rolledBack)

def command (s : Race) (i : Nat) : Race :=
  match s.procs i with
  | .confirm pc => s.confirmCommand i pc
  | .rollback byTimer pc => s.rollbackCommand i byTimer pc
  | _ => s

/-- A whole apply; one that succeeds starts a new history. -/
def apply (tool : Iptables) (s : Race) (call : ApplyCall) : Race :=
  let out := call.run tool s.host
  match out.2 with
  | .applied _ =>
    { s with host := out.1, armed := true, installed := some out.1.live, confirmed := false }
  | _ => s.onHost out.1

end Race

inductive RaceEvent
  | apply (call : ApplyCall)
  | startConfirm (i : Nat)
  | startRollback (i : Nat)
  /-- The timer elapses and starts its service in slot `i`. -/
  | fire (i : Nat)
  /-- The units of a timer that has fired are unloaded. -/
  | collect
  /-- The process in slot `i` runs its next command. -/
  | run (i : Nat)

def Race.step (tool : Iptables) (s : Race) : RaceEvent → Race
  | .apply call => s.apply tool call
  | .startConfirm i => if (s.procs i).canStart then s.set i (.confirm .checkCommitted) else s
  | .startRollback i =>
    if (s.procs i).canStart then s.set i (.rollback false .checkCommitted) else s
  | .fire i =>
    if s.armed ∧ (s.procs i).canStart then
      { s.set i (.rollback true .checkCommitted) with armed := false }
    else s
  | .collect => if s.armed then s else s.onHost { s.host with timerLoaded := false }
  | .run i => s.command i

/-- Run to its end without interruption, a confirmation is the atomic verb, and so is a rollback,
whoever started it. -/
theorem verbs_alone (tool : Iptables) (s : Race) (i : Nat) :
    (s.procs i = .confirm .checkCommitted →
      (Run.after (Race.step tool) s (List.replicate 10 (.run i))).host = (cmdFirewallConfirm s.host).1 ∧
        (Run.after (Race.step tool) s (List.replicate 10 (.run i))).procs i =
          .confirmDone (cmdFirewallConfirm s.host).2) ∧
    ∀ byTimer, s.procs i = .rollback byTimer .checkCommitted →
      (Run.after (Race.step tool) s (List.replicate 5 (.run i))).host = (cmdFirewallRollback s.host).1 ∧
        (Run.after (Race.step tool) s (List.replicate 5 (.run i))).procs i =
          .rollbackDone (cmdFirewallRollback s.host).2 := by
  -- the commands are run one by one, by the files they find
  refine ⟨fun here => ?_, fun byTimer here => ?_⟩
  · cases committed : s.host.committed <;> cases pending : s.host.pending <;> cases loaded : s.host.timerLoaded <;>
      simp [Run.after, Race.step, Race.command, here, committed, pending, loaded, List.replicate, Race.confirmCommand, Race.set,
        Race.onHost, Race.stopUnits, Proc.stopService, cmdFirewallConfirm, Host.persist]
  · cases committed : s.host.committed <;> cases snapshot : s.host.snapshot <;>
      simp [Run.after, Race.step, Race.command, here, committed, snapshot, List.replicate, Race.rollbackCommand, Race.set,
        Race.onHost, Race.restoreSnapshot, cmdFirewallRollback, Host.revert]

namespace Race

/-- No rollback is between its check of the commit marker and its cleanup. -/
def Quiet (s : Race) : Prop := ∀ i, (s.procs i).acting = false

/-- No confirmation is between its check for a pending change and the commit
marker. -/
def Unopened (s : Race) : Prop := ∀ i, (s.procs i).opened = false

/-- The rules of the last successful apply are live and saved. -/
def Safe (s : Race) : Prop :=
  s.confirmed = true → s.installed = some s.host.live ∧ s.host.current = some s.host.live.save

/-- What keeps a confirmation honest: an apply meets no half-done verb and no
timer left over from an earlier change, and the two verbs do not pass each
other between a check and what it protects. -/
def Orderly (s : Race) : RaceEvent → Prop
  | .apply _ =>
    s.Quiet ∧ s.Unopened ∧ (∀ i, (s.procs i).closing = false) ∧
      (s.host.timerLoaded = true → fwPending s.host = true)
  | .run i =>
    (s.procs i = .confirm .checkPending → s.host.pending.isSome → s.Quiet) ∧
      (∀ byTimer, s.procs i = .rollback byTimer .checkCommitted → s.host.committed = false → s.Unopened)
  | _ => True

structure Inv (s : Race) : Prop where
  held : s.Quiet → s.host.pending.isSome ∧ s.host.timerLoaded = true ∨ s.host.committed = true →
    s.installed = some s.host.live
  quiet : s.host.committed = true → s.Quiet
  open_quiet : ∀ i, (s.procs i).opened = true → s.Quiet
  open_found : ∀ i, (s.procs i).opened = true → s.host.pending.isSome
  touching : ∀ i, s.procs i = .confirm .touch → s.installed = some s.host.live
  closing : ∀ i, (s.procs i).closing = true → s.host.committed = true
  saved : ∀ i, (s.procs i).saved = true → s.host.current = some s.host.live.save
  taken : s.host.pending.isSome → s.host.snapshot.isSome
  safe : s.Safe
  kept : s.confirmed = true → s.host.committed = true ∨ s.host.snapshot = some s.host.live.save

/-- A marker set under quiet stays over the installed rules. -/
theorem Inv.committed_installed {s : Race} (inv : s.Inv) (committed : s.host.committed = true) :
    s.installed = some s.host.live :=
  inv.held (inv.quiet committed) (.inr committed)

variable {p : Proc}

/-- What the new process and all old ones meet, all meet. -/
theorem procs_set {s : Race} {i : Nat} {P : Proc → Prop} (own : P p) (others : ∀ j, P (s.procs j)) (j : Nat) :
    P ((s.set i p).procs j) := by
  by_cases same : j = i
  · simpa [set, same] using own
  · simpa [set, same] using others j

theorem quiet_set {s : Race} {i : Nat} (quiet : s.Quiet) (still : p.acting = false) : (s.set i p).Quiet :=
  procs_set (P := fun q => q.acting = false) still quiet

theorem quiet_of_set {s : Race} {i : Nat} (quiet : (s.set i p).Quiet) (still : (s.procs i).acting = false) : s.Quiet := by
  intro j
  by_cases same : j = i
  · rw [same]; exact still
  · simpa [set, same] using quiet j

/-- A process may go on when the host already justifies where it goes. -/
theorem Inv.set {s : Race} (inv : s.Inv) {i : Nat}
    (acts : p.acting = true → (s.procs i).acting = true ∨ s.host.committed = false ∧ s.Unopened)
    (leaves : (s.procs i).acting = true → p.acting = false → s.host.pending = none)
    (opens : p.opened = true → s.Quiet ∧ s.host.pending.isSome)
    (touches : p = .confirm .touch → s.installed = some s.host.live) (closes : p.closing = true → s.host.committed = true)
    (saves : p.saved = true → s.host.current = some s.host.live.save) : (s.set i p).Inv := by
  have atI : (s.set i p).procs i = p := by simp [Race.set]
  have still : s.host.committed = true → p.acting = false := by
    intro committed
    cases acting : p.acting with
    | false => rfl
    | true =>
      rcases acts acting with before | ⟨uncommitted, -⟩
      · rw [inv.quiet committed i] at before; cases before
      · rw [committed] at uncommitted; cases uncommitted
  have calm : ∀ j, (s.procs j).opened = true → p.acting = false := by
    intro j open'
    cases acting : p.acting with
    | false => rfl
    | true =>
      rcases acts acting with before | ⟨-, unopened⟩
      · rw [inv.open_quiet j open' i] at before; cases before
      · rw [unopened j] at open'; cases open'
  have open_quiet : ∀ j, ((s.set i p).procs j).opened = true → (s.set i p).Quiet := by
    refine procs_set (P := fun q => q.opened = true → (s.set i p).Quiet) (fun open' => ?_) fun j open' => ?_
    · exact quiet_set (opens open').1 (by cases p <;> simp_all [Proc.opened, Proc.acting])
    · exact quiet_set (inv.open_quiet j open') (calm j open')
  refine ⟨?_, fun committed => quiet_set (inv.quiet committed) (still committed), open_quiet,
    procs_set (P := fun q => q.opened = true → s.host.pending.isSome) (fun open' => (opens open').2) inv.open_found,
    procs_set (P := fun q => q = .confirm .touch → s.installed = some s.host.live) touches inv.touching,
    procs_set (P := fun q => q.closing = true → s.host.committed = true) closes inv.closing,
    procs_set (P := fun q => q.saved = true → s.host.current = some s.host.live.save) saves inv.saved,
    inv.taken, inv.safe, inv.kept⟩
  intro quiet cause
  cases before : (s.procs i).acting with
  | false => exact inv.held (quiet_of_set quiet before) cause
  | true =>
    have gone := leaves before (by rw [← atI]; exact quiet i)
    rcases cause with ⟨pending, -⟩ | committed
    · rw [show (s.set i p).host.pending = none from gone] at pending
      cases pending
    · exact inv.committed_installed committed

/-- A process that is not acting goes on to where the host justifies it; the
common case of `Inv.set`. -/
theorem Inv.goOn {s : Race} (inv : s.Inv) {i : Nat} (before : (s.procs i).acting = false) (acts : p.acting = false)
    (opens : p.opened = true → s.Quiet ∧ s.host.pending.isSome)
    (touches : p = .confirm .touch → s.installed = some s.host.live) (closes : p.closing = true → s.host.committed = true)
    (saves : p.saved = true → s.host.current = some s.host.live.save) : (s.set i p).Inv :=
  inv.set (fun acting => by rw [acts] at acting; cases acting)
    (fun acting => by rw [before] at acting; cases acting) opens touches closes saves

/-- Neither a check nor the end of a verb needs anything of the host. -/
theorem Inv.rest {s : Race} (inv : s.Inv) {i : Nat} (before : (s.procs i).acting = false)
    (inert : p.acting = false ∧ p.opened = false ∧ p.closing = false ∧ p.saved = false) : (s.set i p).Inv := by
  obtain ⟨acting, opened, closing, saved⟩ := inert
  refine inv.goOn before acting ?_ ?_ ?_ ?_
  · intro open'; rw [opened] at open'; cases open'
  · rintro rfl; cases opened
  · intro closing'; rw [closing] at closing'; cases closing'
  · intro saved'; rw [saved] at saved'; cases saved'

theorem Inv.stopUnits {s : Race} (inv : s.Inv) (committed : s.host.committed = true) :
    s.stopUnits.Inv := by
  have quiet : s.stopUnits.Quiet := fun i => by
    rw [Race.stopUnits, Proc.stopService_acting (inv.quiet committed i)]
  have installed := inv.committed_installed committed
  refine ⟨fun _ _ => installed, fun _ => quiet, fun _ _ => quiet, fun i open' => inv.open_found i ?_,
    fun _ _ => installed, fun _ _ => committed, fun i saved => inv.saved i ?_, inv.taken, inv.safe,
    inv.kept⟩
  · rwa [Race.stopUnits, Proc.stopService_opened] at open'
  · rwa [Race.stopUnits, Proc.stopService_saved] at saved

theorem Inv.confirmCommand {s : Race} (inv : s.Inv) {i : Nat} {pc : ConfirmPc}
    (here : s.procs i = .confirm pc)
    (orderly : pc = .checkPending → s.host.pending.isSome → s.Quiet) : (s.confirmCommand i pc).Inv := by
  have idle : (s.procs i).acting = false := by rw [here]; rfl
  have committed : (Proc.confirm pc).closing = true → s.host.committed = true := fun closing =>
    inv.closing i (by rw [here]; exact closing)
  cases pc with
  | checkCommitted =>
    simp only [Race.confirmCommand]
    split <;> exact inv.rest idle ⟨rfl, rfl, rfl, rfl⟩
  | checkPending =>
    simp only [Race.confirmCommand]
    split
    · exact inv.rest idle ⟨rfl, rfl, rfl, rfl⟩
    · rename_i pending
      have found : s.host.pending.isSome := by simpa [Option.isSome_iff_ne_none] using pending
      exact inv.goOn idle rfl (fun _ => ⟨orderly rfl found, found⟩) nofun nofun nofun
  | checkTimer =>
    have quiet := inv.open_quiet i (by rw [here]; rfl)
    have found := inv.open_found i (by rw [here]; rfl)
    simp only [Race.confirmCommand]
    split
    · rename_i loaded
      exact inv.goOn idle rfl (fun _ => ⟨quiet, found⟩) (fun _ => inv.held quiet (.inl ⟨found, loaded⟩))
        nofun nofun
    · exact inv.rest idle ⟨rfl, rfl, rfl, rfl⟩
  | touch =>
    -- The marker goes up over the installed rules, and no rollback is under way to undo them.
    have quiet := inv.open_quiet i (by rw [here]; rfl)
    have installed := inv.touching i here
    have marked : (s.onHost { s.host with committed := true }).Inv :=
      ⟨fun _ _ => installed, fun _ => quiet, inv.open_quiet, inv.open_found, inv.touching,
        fun _ _ => rfl, inv.saved, inv.taken, inv.safe, fun _ => .inl rfl⟩
    exact marked.goOn idle rfl nofun nofun (fun _ => rfl) nofun
  | stop =>
    exact (inv.stopUnits (committed rfl)).goOn (Proc.stopService_acting idle) rfl nofun nofun
      (fun _ => committed rfl) nofun
  | resetFailed => exact inv.goOn idle rfl nofun nofun (fun _ => committed rfl) nofun
  | save =>
    have installed := inv.committed_installed (committed rfl)
    have kept : (s.onHost { s.host with current := some s.host.live.save }).Inv :=
      ⟨inv.held, inv.quiet, inv.open_quiet, inv.open_found, inv.touching, inv.closing,
        fun _ _ => rfl, inv.taken, fun _ => ⟨installed, rfl⟩, inv.kept⟩
    exact kept.goOn idle rfl nofun nofun (fun _ => committed rfl) (fun _ => rfl)
  | bootUnit =>
    have written : (s.onHost { s.host with bootUnit := true }).Inv := ⟨inv.held, inv.quiet,
      inv.open_quiet, inv.open_found, inv.touching, inv.closing, inv.saved, inv.taken, inv.safe, inv.kept⟩
    exact written.goOn idle rfl nofun nofun (fun _ => committed rfl)
      (fun _ => inv.saved i (by rw [here]; rfl))
  | enable =>
    have enabled : (s.onHost { s.host with bootEnabled := true }).Inv := ⟨inv.held, inv.quiet,
      inv.open_quiet, inv.open_found, inv.touching, inv.closing, inv.saved, inv.taken, inv.safe, inv.kept⟩
    exact enabled.goOn idle rfl nofun nofun (fun _ => committed rfl)
      (fun _ => inv.saved i (by rw [here]; rfl))
  | reply =>
    have saved := inv.saved i (by rw [here]; rfl)
    have done : (s.set i (.confirmDone .confirmed)).Inv := inv.rest idle ⟨rfl, rfl, rfl, rfl⟩
    exact ⟨done.held, done.quiet, done.open_quiet, done.open_found, done.touching, done.closing,
      done.saved, done.taken, fun _ => ⟨inv.committed_installed (committed rfl), saved⟩,
      fun _ => .inl (committed rfl)⟩

section
variable {s : Race} {i : Nat} (inv : s.Inv) (acting : (s.procs i).acting = true)
include inv acting

/-- An acting rollback excludes the commit marker. -/
theorem Inv.uncommitted : s.host.committed = false := by
  cases committed : s.host.committed with
  | false => rfl
  | true => rw [inv.quiet committed i] at acting; cases acting

/-- It also excludes every confirmation past its checks. -/
theorem Inv.unopened (j : Nat) : (s.procs j).opened = false := by
  cases open' : (s.procs j).opened with
  | false => rfl
  | true => rw [inv.open_quiet j open' i] at acting; cases acting

theorem Inv.restored : (s.onHost (restoreSnapshot s.host)).Inv := by
  have marker := inv.uncommitted acting
  have loud : ¬s.Quiet := fun quiet => by rw [quiet i] at acting; cases acting
  -- After a confirmation the snapshot can only be of the confirmed rules themselves.
  have same : s.confirmed = true → (restoreSnapshot s.host).live = s.host.live := by
    intro confirmed
    rcases inv.kept confirmed with committed | snapshot
    · rw [marker] at committed; cases committed
    · simp [restoreSnapshot, snapshot]
  refine ⟨fun quiet => absurd quiet loud, inv.quiet, inv.open_quiet, inv.open_found, ?_,
    inv.closing, ?_, inv.taken, ?_, ?_⟩
  · intro j touch
    have shut := inv.unopened acting j
    rw [show s.procs j = .confirm .touch from touch] at shut
    cases shut
  · intro j saved
    have committed := inv.closing j (Proc.saved_closing saved)
    rw [marker] at committed
    cases committed
  · intro confirmed
    have safe := inv.safe confirmed
    rw [← same confirmed] at safe
    exact safe
  · intro confirmed
    have kept := inv.kept confirmed
    rw [← same confirmed] at kept
    exact kept

theorem Inv.removed : (s.onHost { s.host with pending := none, armedAt := none, windowSecs := none }).Inv := by
  have loud : ¬s.Quiet := fun quiet => by rw [quiet i] at acting; cases acting
  refine ⟨fun quiet => absurd quiet loud, inv.quiet, inv.open_quiet, ?_, inv.touching,
    inv.closing, inv.saved, nofun, inv.safe, inv.kept⟩
  intro j open'
  exact absurd ((inv.unopened acting j).symm.trans open') Bool.false_ne_true

end

theorem Inv.rollbackCommand {s : Race} (inv : s.Inv) {i : Nat} {byTimer : Bool} {pc : RollbackPc}
    (here : s.procs i = .rollback byTimer pc)
    (orderly : pc = .checkCommitted → s.host.committed = false → s.Unopened) :
    (s.rollbackCommand i byTimer pc).Inv := by
  cases pc with
  | checkCommitted =>
    have idle : (s.procs i).acting = false := by rw [here]; rfl
    simp only [Race.rollbackCommand]
    split
    · exact inv.rest idle ⟨rfl, rfl, rfl, rfl⟩
    · rename_i unmarked
      have unmarked : s.host.committed = false := by simpa using unmarked
      exact inv.set (fun _ => .inr ⟨unmarked, orderly rfl unmarked⟩)
        (fun acting => by rw [idle] at acting; cases acting) nofun nofun nofun nofun
  | checkSnapshot =>
    have acting : (s.procs i).acting = true := by rw [here]; rfl
    simp only [Race.rollbackCommand]
    split
    · rename_i missing
      refine inv.set nofun (fun _ _ => ?_) nofun nofun nofun nofun
      cases pending : s.host.pending with
      | none => rfl
      | some text =>
        have taken := inv.taken (by rw [pending]; rfl)
        simp_all
    · exact inv.set (fun _ => .inl acting) nofun nofun nofun nofun nofun
  | restore =>
    have acting : (s.procs i).acting = true := by rw [here]; rfl
    exact (inv.restored acting).set (fun _ => .inl acting) nofun nofun nofun nofun nofun
  | rm =>
    have acting : (s.procs i).acting = true := by rw [here]; rfl
    exact (inv.removed acting).set nofun (fun _ _ => rfl) nofun nofun nofun nofun
  | reply => exact inv.rest (by rw [here]; rfl) ⟨rfl, rfl, rfl, rfl⟩

variable {tool : Iptables} {call : ApplyCall}

theorem apply_refused {s : Race} (other : ∀ w, (call.run tool s.host).2 ≠ .applied w) :
    s.apply tool call = s.onHost (call.run tool s.host).1 := by
  simp only [Race.apply]

theorem apply_applied {s : Race} {w : Text} (applied : (call.run tool s.host).2 = .applied w) : s.apply tool call =
      { s with host := (call.run tool s.host).1, armed := true,
               installed := some (call.run tool s.host).1.live, confirmed := false } := by
  simp only [Race.apply, applied]

/-- An apply that stops after taking its snapshot removes the marker, but with
no timer loaded there is nothing left to confirm. -/
theorem Inv.stage {s : Race} (inv : s.Inv) (quiet : s.Quiet)
    (unclosed : ∀ i, (s.procs i).closing = false) (unloaded : s.host.timerLoaded = false) (stdin : Text) :
    (s.onHost (s.host.stage stdin)).Inv := by
  refine ⟨?_, fun _ => quiet, fun _ _ => quiet, fun _ _ => rfl, inv.touching, fun j closing => ?_,
    inv.saved, fun _ => rfl, inv.safe, fun _ => .inr rfl⟩
  · rintro - (⟨-, loaded⟩ | committed)
    · exact absurd (unloaded.symm.trans loaded) Bool.false_ne_true
    · cases committed
  · exact absurd ((unclosed j).symm.trans closing) Bool.false_ne_true

theorem Inv.apply {s : Race} (inv : s.Inv) (orderly : s.Orderly (.apply call)) : (s.apply tool call).Inv := by
  obtain ⟨quiet, unopened, unclosed, leftover⟩ := orderly
  have ran : call.run tool s.host = ((call.run tool s.host).1, (call.run tool s.host).2) := rfl
  rcases mainFirewallApply_cases ran with
    ⟨same, other⟩ | ⟨free, staged, other⟩ | ⟨-, -, -, applied, host⟩
  · rw [apply_refused other, same]
    exact inv
  · have unloaded : s.host.timerLoaded = false := by
      cases loaded : s.host.timerLoaded with
      | false => rfl
      | true => rw [leftover loaded] at free; cases free
    have next := inv.stage quiet unclosed unloaded call.stdin
    rw [apply_refused other]
    rcases staged with staged | ⟨-, stamped⟩
    · rw [staged]
      exact next
    · rw [stamped]
      exact ⟨next.held, next.quiet, next.open_quiet, next.open_found, next.touching, next.closing,
        next.saved, next.taken, next.safe, next.kept⟩
  · rw [apply_applied applied]
    refine ⟨fun _ _ => rfl, fun _ => quiet, fun _ _ => quiet, fun j open' => ?_, fun _ _ => rfl,
      fun j closing => ?_, fun j saved => ?_, fun _ => ?_, nofun, nofun⟩
    · exact absurd ((unopened j).symm.trans open') Bool.false_ne_true
    · exact absurd ((unclosed j).symm.trans closing) Bool.false_ne_true
    · exact absurd ((unclosed j).symm.trans (Proc.saved_closing saved)) Bool.false_ne_true
    · rw [host]
      rfl

theorem Inv.step {s : Race} (inv : s.Inv) {e : RaceEvent} (orderly : s.Orderly e) : (s.step tool e).Inv := by
  have start : ∀ i p, (s.procs i).canStart = true → p.acting = false ∧ p.opened = false ∧
      p.closing = false ∧ p.saved = false → (s.set i p).Inv := by
    intro i p free inert
    refine inv.rest ?_ inert
    generalize s.procs i = q at free
    cases q <;> first | rfl | cases free
  cases e with
  | apply call => exact inv.apply orderly
  | startConfirm i | startRollback i =>
    simp only [Race.step]
    split
    · exact start i _ ‹_› ⟨rfl, rfl, rfl, rfl⟩
    · exact inv
  | fire i =>
    simp only [Race.step]
    split
    · rename_i ready
      have next := start i (.rollback true .checkCommitted) ready.2 ⟨rfl, rfl, rfl, rfl⟩
      exact ⟨next.held, next.quiet, next.open_quiet, next.open_found, next.touching, next.closing,
        next.saved, next.taken, next.safe, next.kept⟩
    · exact inv
  | collect =>
    simp only [Race.step]
    split
    · exact inv
    · refine ⟨fun quiet cause => ?_, inv.quiet, inv.open_quiet, inv.open_found, inv.touching, inv.closing,
        inv.saved, inv.taken, inv.safe, inv.kept⟩
      rcases cause with ⟨-, loaded⟩ | committed
      · cases loaded
      · exact inv.held quiet (.inr committed)
  | run i =>
    obtain ⟨confirms, rollbacks⟩ := orderly
    simp only [Race.step, Race.command]
    split
    · rename_i pc here
      exact inv.confirmCommand here fun first => confirms (by rw [here, first])
    · rename_i byTimer pc here
      exact inv.rollbackCommand here fun first => rollbacks byTimer (by rw [here, first])
    · exact inv

end Race

/-- A host whose `/run` directory is as empty as after a boot. -/
structure Host.Booted (h : Host) : Prop where
  pending : h.pending = none
  committed : h.committed = false

theorem Race.boot_inv {h : Host} (booted : h.Booted) : (Race.boot h).Inv where
  held := by
    rintro - (⟨pending, -⟩ | committed)
    · rw [Race.boot, booted.pending] at pending
      cases pending
    · exact absurd (booted.committed.symm.trans committed) Bool.false_ne_true
  quiet := fun _ _ => rfl
  open_quiet := nofun
  open_found := nofun
  touching := nofun
  closing := nofun
  saved := nofun
  taken := by
    intro pending
    rw [Race.boot, booted.pending] at pending
    cases pending
  safe := nofun
  kept := nofun

/-- In every interleaving whose steps are orderly, a confirmation that answers
`confirmed` stands over the rules of the last successful apply, saved and
live, until the next one. -/
theorem confirm_race_safe (tool : Iptables) (h : Host) (booted : h.Booted) (es : List RaceEvent)
    (orderly : Run.Meets (Race.step tool) Race.Orderly (.boot h) es) :
    (Run.after (Race.step tool) (.boot h) es).Safe :=
  (Run.Meets.invariant Race.Inv (fun _ _ inv ok => Race.Inv.step inv ok) (Race.boot_inv booted)
    orderly).safe

/-- One apply and one confirmation, each to its end. -/
def confirmRun : List RaceEvent :=
  [.apply sampleCall, .startConfirm 0] ++ List.replicate 10 (.run 0)

theorem confirm_race_safe_sample :
    (Run.after (Race.step dropAllTool) (.boot (.fresh (.bare .accept))) confirmRun).confirmed = true ∧
      (Run.after (Race.step dropAllTool) (.boot (.fresh (.bare .accept))) confirmRun).Safe := by
  have elsewhere : ∀ {s : Race}, s.procs 0 ≠ .confirm .checkPending →
      (∀ b, s.procs 0 ≠ .rollback b .checkCommitted) → s.Orderly (.run 0) := fun first second =>
    ⟨fun here => absurd here first, fun b here => absurd here (second b)⟩
  refine ⟨by decide, confirm_race_safe dropAllTool _ ⟨rfl, rfl⟩ confirmRun ?_⟩
  refine ⟨⟨fun _ => rfl, fun _ => rfl, fun _ => rfl, nofun⟩, trivial, ?_⟩
  refine ⟨elsewhere (by decide) (by decide), ⟨fun _ _ => ?_, fun b here => ?_⟩, ?_⟩
  · exact Race.quiet_set (Race.quiet_set (fun _ => rfl) rfl) rfl
  · cases here
  refine ⟨elsewhere (by decide) (by decide), elsewhere (by decide) (by decide), ?_⟩
  refine ⟨elsewhere (by decide) (by decide), elsewhere (by decide) (by decide), ?_⟩
  refine ⟨elsewhere (by decide) (by decide), elsewhere (by decide) (by decide), ?_⟩
  exact ⟨elsewhere (by decide) (by decide), elsewhere (by decide) (by decide), trivial⟩

/-- Accepts only the empty text, and drops everything with it. -/
def pickyTool : Iptables := ⟨fun t => if t = [] then none else some t, fun _ _ => .bare .drop⟩

/-- An apply, a panic rollback, an apply that fails its validation, and a
confirmation, none of them overlapping. -/
def panicRun : List RaceEvent :=
  [.apply sampleCall, .startRollback 0] ++ List.replicate 5 (.run 0) ++
    [.apply { sampleCall with stdin := ['x'] }, .startConfirm 1] ++ List.replicate 10 (.run 1)

/-- The panic rollback leaves its timer loaded and the failed apply leaves a
pending change, so the confirmation goes through over the old rules. -/
theorem confirm_after_panic_rollback :
    (Run.after (Race.step pickyTool) (.boot (.fresh (.bare .accept))) panicRun).procs 1 =
        .confirmDone .confirmed ∧
      ¬(Run.after (Race.step pickyTool) (.boot (.fresh (.bare .accept))) panicRun).Safe := by
  refine ⟨by decide, fun safe => ?_⟩
  have installed := (safe (by decide)).1
  exact absurd (congrArg (Option.map fun r : Ruleset => (r.filter.builtin .input).policy) installed)
    (by decide)

end Protean.Firewall
