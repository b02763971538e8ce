import Protean.Regex
import Protean.Shell
import Protean.Firewall.Panel

open Netfilter (Ruleset Dump readRule)

namespace Protean.Firewall

/-- What the installed packet filter does with a ruleset text: the complaint
of `iptables-restore --test`, if any, and the effect of `iptables-restore`. -/
structure Iptables where
  test : Text → Option Text
  load : Text → Ruleset → Ruleset

/-- What a verb can find on the host besides its own files. -/
structure Env where
  conflictingManager : Bool
  hasIptables : Bool
  now : Int
  deriving DecidableEq, Repr

/-- The live rules, the files under `/run/protean-fw` and `/etc/protean-fw`,
and the rollback timer. A marker file is either there or not. -/
structure Host where
  live : Ruleset
  snapshot : Option Dump
  pending : Option Text
  committed : Bool
  armedAt : Option Int
  windowSecs : Option Text
  timerLoaded : Bool
  current : Option Dump
  bootUnit : Bool
  bootEnabled : Bool

/-- A host on which no verb has run since it booted. -/
def Host.fresh (live : Ruleset) : Host where
  live := live
  snapshot := none
  pending := none
  committed := false
  armedAt := none
  windowSecs := none
  timerLoaded := false
  current := none
  bootUnit := false
  bootEnabled := false

def fwPending (h : Host) : Bool := h.pending.isSome && !h.committed && h.timerLoaded

theorem fwPending_loaded {h : Host} (pending : fwPending h = true) : h.timerLoaded = true := by
  simp_all [fwPending]

theorem fwPending_uncommitted {h : Host} (pending : fwPending h = true) : h.committed = false := by
  simp_all [fwPending]

inductive ApplyReply
  | invalidWindow
  | invalidSshPort
  | invalidCriticalPorts
  | windowOutOfRange
  | conflictingManager
  | stillPending
  | noIptables
  | failedValidation (complaint : Text)
  | armFailed
  | applied (window : Text)
  deriving DecidableEq, Repr

/-- A complaint as `json_str` quotes it for the reply. -/
def jsonStr (s : Text) : Text :=
  '"' :: s.flatMap (fun c =>
    match c with
    | '\\' => ['\\', '\\']
    | '"' => ['\\', '"']
    | '\n' => ['\\', 'n']
    | '\t' => ['\\', 't']
    | '\r' => []
    | c => [c]) ++ ['"']

/-- The first three go to standard error, the others to standard output. -/
def ApplyReply.text : ApplyReply → Text
  | invalidWindow => "invalid window".toList
  | invalidSshPort => "invalid ssh port".toList
  | invalidCriticalPorts => "invalid critical ports".toList
  | windowOutOfRange => "\x7b\"error\":\"window out of range (30-3600)\"\x7d".toList
  | conflictingManager =>
    "\x7b\"error\":\"a conflicting firewall manager (ufw/firewalld) is active; refusing\"\x7d".toList
  | stillPending =>
    "\x7b\"error\":\"a previous firewall change is still pending confirmation; ".toList ++
      "confirm or roll it back first\"\x7d".toList
  | noIptables => "\x7b\"error\":\"iptables not found\"\x7d".toList
  | failedValidation complaint =>
    "\x7b\"error\":\"ruleset failed validation: ".toList ++ jsonStr complaint ++ "\"\x7d".toList
  | armFailed => "\x7b\"error\":\"failed to arm rollback timer; aborting apply\"\x7d".toList
  | applied window =>
    "\x7b\"applied\":true,\"rollback_window_secs\":".toList ++
      Text.decimal ((Text.readNumber window).getD 0) ++ "\x7d".toList

/-- `[ "$window" -lt 30 ] || [ "$window" -gt 3600 ]`. -/
def windowOutOfRange (window : Text) : Bool :=
  match Text.readDecimal window with
  | some n => n < 30 || 3600 < n
  | none => false

def guardComment : List Text :=
  [Word.dashM, Word.comment, Word.dashComment, commentPrefix ++ ['-', 'g', 'u', 'a', 'r', 'd']]

def portGuard (proto port : Text) : List Text :=
  [Word.dashP, proto, Word.dashDport, port, Word.dashJ, Word.accept] ++ guardComment

def criticalGuard (entry : Text) : List Text :=
  portGuard (Shell.beforeFirst ':' entry) (Shell.afterFirst ':' entry)

/-- The guards in the order in which they are inserted, so that the last one
is evaluated first. -/
def guards (sshPort criticalCsv : Text) : List (List Text) :=
  (if criticalCsv ≠ [] then (Shell.fields ',' criticalCsv).map criticalGuard else []) ++
    [portGuard Word.tcp sshPort, stateSpec ++ guardComment, loSpec ++ guardComment]

/-- `iptables -I INPUT 1 …`: arguments it does not understand change nothing,
and the script goes on. -/
def insertGuard (live : Ruleset) (spec : List Text) : Ruleset :=
  match readRule spec with
  | some rule => live.insert .input rule
  | none => live

def installGuards (sshPort criticalCsv : Text) (live : Ruleset) : Ruleset :=
  (guards sshPort criticalCsv).foldl insertGuard live

/-- `iptables-save > snapshot.rules`, `cat > pending.rules`, `rm -f committed`. -/
def Host.stage (h : Host) (stdin : Text) : Host :=
  { h with snapshot := some h.live.save, pending := some stdin, committed := false }

def Host.stamp (h : Host) (now : Int) (window : Text) : Host :=
  { h with armedAt := some now, windowSecs := some window }

/-- The timer is armed before the rules are swapped. -/
def Host.swap (h : Host) (live : Ruleset) : Host := { h with timerLoaded := true, live := live }

section
variable (tool : Iptables) (env : Env) (window sshPort criticalCsv stdin : Text) (h : Host)

/-- The part of `cmd_firewall_apply` after its refusals. `systemd-run` fails
exactly when a unit of that name is still loaded. -/
def applyStaged : Host × ApplyReply :=
  match tool.test stdin with
  | some complaint => (h.stage stdin, .failedValidation complaint)
  | none =>
    let stamped := (h.stage stdin).stamp env.now window
    if h.timerLoaded then (stamped, .armFailed)
    else (stamped.swap (installGuards sshPort criticalCsv (tool.load stdin h.live)), .applied window)

def cmdFirewallApply : Host × ApplyReply :=
  if windowOutOfRange window then (h, .windowOutOfRange)
  else if env.conflictingManager then (h, .conflictingManager)
  else if fwPending h then (h, .stillPending)
  else if !env.hasIptables then (h, .noIptables)
  else applyStaged tool env window sshPort criticalCsv stdin h

end

inductive ConfirmReply
  | alreadyConfirmed
  | noPending
  | windowExpired
  | confirmed
  deriving DecidableEq, Repr

def ConfirmReply.text : ConfirmReply → Text
  | alreadyConfirmed => "\x7b\"confirmed\":true,\"already_confirmed\":true\x7d".toList
  | noPending => "\x7b\"error\":\"no pending firewall change to confirm\"\x7d".toList
  | windowExpired =>
    "\x7b\"error\":\"confirmation window already expired; ruleset was rolled back\"\x7d".toList
  | confirmed => "\x7b\"confirmed\":true\x7d".toList

/-- What a confirmation that passes its checks leaves behind. -/
def Host.persist (h : Host) : Host :=
  { h with
    committed := true, timerLoaded := false, current := some h.live.save,
    bootUnit := true, bootEnabled := true }

def cmdFirewallConfirm (h : Host) : Host × ConfirmReply :=
  if h.committed then (h, .alreadyConfirmed)
  else if h.pending.isNone then (h, .noPending)
  else if !h.timerLoaded then (h, .windowExpired)
  else (h.persist, .confirmed)

inductive RollbackReply
  | alreadyConfirmed
  | noSnapshot
  | rolledBack
  deriving DecidableEq, Repr

def RollbackReply.text : RollbackReply → Text
  | alreadyConfirmed => "\x7b\"rolled_back\":false,\"reason\":\"already confirmed\"\x7d".toList
  | noSnapshot => "\x7b\"error\":\"no snapshot to roll back to\"\x7d".toList
  | rolledBack => "\x7b\"rolled_back\":true\x7d".toList

/-- The snapshot is restored and the pending change forgotten. A timer that is
still loaded stays loaded. -/
def Host.revert (h : Host) (snapshot : Dump) : Host :=
  { h with
    live := Ruleset.restore snapshot h.live, pending := none, armedAt := none, windowSecs := none }

def cmdFirewallRollback (h : Host) : Host × RollbackReply :=
  if h.committed then (h, .alreadyConfirmed)
  else match h.snapshot with
    | none => (h, .noSnapshot)
    | some snapshot => (h.revert snapshot, .rolledBack)

structure StatusReply where
  pending : Bool
  remainingSecs : Int
  confirmedStateSaved : Bool
  currentRuleset : Dump

/-- `firewall-status` only reads. -/
def cmdFirewallStatus (env : Env) (h : Host) : StatusReply where
  pending := fwPending h
  remainingSecs :=
    match fwPending h, h.armedAt, h.windowSecs.bind Text.readDecimal with
    | true, some armedAt, some window => max 0 (armedAt + window - env.now)
    | _, _, _ => 0
  confirmedStateSaved := h.current.isSome
  currentRuleset := h.live.save

/-- The timer elapses: its service runs the rollback, and the transient units
are collected once it exits. -/
def fireTimer (h : Host) : Host :=
  if h.timerLoaded then { (cmdFirewallRollback h).1 with timerLoaded := false } else h

def validFwWindow : Regex := Regex.between Regex.digit 2 4

def validPort : Regex := Regex.between Regex.digit 1 5

def validFwEntry : Regex :=
  (Regex.word Word.tcp + Regex.word Word.udp) * (.char ':' * validPort)

def validFwPortlist : Regex := validFwEntry * Regex.upTo (.char ',' * validFwEntry) 31

/-- The critical list is optional, but not malformed. -/
def criticalCsvAccepted (criticalCsv : Text) : Bool :=
  criticalCsv = [] || validFwPortlist.accepts criticalCsv

/-- The `firewall-apply` branch of `main`. -/
def mainFirewallApply (tool : Iptables) (env : Env) (window sshPort criticalCsv stdin : Text)
    (h : Host) : Host × ApplyReply :=
  if !validFwWindow.accepts window then (h, .invalidWindow)
  else if !validPort.accepts sshPort then (h, .invalidSshPort)
  else if !criticalCsvAccepted criticalCsv then (h, .invalidCriticalPorts)
  else cmdFirewallApply tool env window sshPort criticalCsv stdin h

section
variable {tool : Iptables} {env : Env} {window sshPort criticalCsv stdin : Text} {h : Host}

theorem applyStaged_cases :
    (∃ complaint, applyStaged tool env window sshPort criticalCsv stdin h =
      (h.stage stdin, .failedValidation complaint)) ∨
    (h.timerLoaded = true ∧ applyStaged tool env window sshPort criticalCsv stdin h =
      ((h.stage stdin).stamp env.now window, .armFailed)) ∨
    (h.timerLoaded = false ∧ tool.test stdin = none ∧
      applyStaged tool env window sshPort criticalCsv stdin h =
        (((h.stage stdin).stamp env.now window).swap
          (installGuards sshPort criticalCsv (tool.load stdin h.live)), .applied window)) := by
  unfold applyStaged
  split
  · exact .inl ⟨_, rfl⟩
  · rename_i accepted
    cases loaded : h.timerLoaded with
    | true => exact .inr (.inl ⟨rfl, rfl⟩)
    | false => exact .inr (.inr ⟨rfl, accepted, rfl⟩)

/-- A refused apply changes nothing; otherwise no change was pending. -/
theorem mainFirewallApply_refused_or_staged :
    ((mainFirewallApply tool env window sshPort criticalCsv stdin h).1 = h ∧
      ∀ w, (mainFirewallApply tool env window sshPort criticalCsv stdin h).2 ≠ .applied w) ∨
    (fwPending h = false ∧ mainFirewallApply tool env window sshPort criticalCsv stdin h =
      applyStaged tool env window sshPort criticalCsv stdin h) := by
  unfold mainFirewallApply cmdFirewallApply
  split
  · exact .inl ⟨rfl, fun _ => nofun⟩
  split
  · exact .inl ⟨rfl, fun _ => nofun⟩
  split
  · exact .inl ⟨rfl, fun _ => nofun⟩
  split
  · exact .inl ⟨rfl, fun _ => nofun⟩
  split
  · exact .inl ⟨rfl, fun _ => nofun⟩
  split
  · exact .inl ⟨rfl, fun _ => nofun⟩
  split
  · exact .inl ⟨rfl, fun _ => nofun⟩
  · rename_i free _
    exact .inr ⟨by simpa using free, rfl⟩

/-- Everything an apply can do to the host: nothing, stage the change without
installing it, or install it under an armed timer. -/
theorem mainFirewallApply_cases {h' : Host} {reply : ApplyReply}
    (ran : mainFirewallApply tool env window sshPort criticalCsv stdin h = (h', reply)) :
    (h' = h ∧ ∀ w, reply ≠ .applied w) ∨
    (fwPending h = false ∧ (h' = h.stage stdin ∨
      h.timerLoaded = true ∧ h' = (h.stage stdin).stamp env.now window) ∧ ∀ w, reply ≠ .applied w) ∨
    (fwPending h = false ∧ h.timerLoaded = false ∧ tool.test stdin = none ∧ reply = .applied window ∧
      h' = ((h.stage stdin).stamp env.now window).swap
        (installGuards sshPort criticalCsv (tool.load stdin h.live))) := by
  rcases @mainFirewallApply_refused_or_staged tool env window sshPort criticalCsv stdin h with
    ⟨same, refused⟩ | ⟨free, staged⟩
  · rw [ran] at same refused
    exact .inl ⟨same, refused⟩
  · rw [staged] at ran
    rcases @applyStaged_cases tool env window sshPort criticalCsv stdin h with
      ⟨complaint, out⟩ | ⟨loaded, out⟩ | ⟨unloaded, accepted, out⟩
    · cases ran.symm.trans out
      exact .inr (.inl ⟨free, .inl rfl, fun _ => nofun⟩)
    · cases ran.symm.trans out
      exact .inr (.inl ⟨free, .inr ⟨loaded, rfl⟩, fun _ => nofun⟩)
    · cases ran.symm.trans out
      exact .inr (.inr ⟨free, unloaded, accepted, rfl, rfl⟩)

/-- A rollback either leaves the host alone or restores its snapshot. -/
theorem cmdFirewallRollback_cases (h : Host) :
    ((cmdFirewallRollback h).1 = h ∧ (h.committed = true ∨ h.snapshot = none)) ∨
    (h.committed = false ∧ ∃ snapshot, h.snapshot = some snapshot ∧
      (cmdFirewallRollback h).1 = h.revert snapshot) := by
  unfold cmdFirewallRollback
  split
  · exact .inl ⟨rfl, .inl ‹_›⟩
  · split
    · exact .inl ⟨rfl, .inr ‹_›⟩
    · rename_i uncommitted _ snapshot found
      exact .inr ⟨by simpa using uncommitted, snapshot, found, rfl⟩

/-- A confirmation persists the live rules only with the change pending and
its timer loaded. -/
theorem cmdFirewallConfirm_cases (h : Host) :
    (fwPending h = false ∧ (cmdFirewallConfirm h).1 = h ∧ (cmdFirewallConfirm h).2 ≠ .confirmed) ∨
    (fwPending h = true ∧ cmdFirewallConfirm h = (h.persist, .confirmed)) := by
  unfold cmdFirewallConfirm fwPending
  cases h.committed <;> cases h.pending <;> cases h.timerLoaded <;> simp

end

end Protean.Firewall
