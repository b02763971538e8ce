import Protean.Run
import Protean.Firewall.Verbs

open Netfilter

namespace Protean.Firewall

/-- One call of `firewall-apply`, with what it finds on the host. -/
structure ApplyCall where
  env : Env
  window : Text
  sshPort : Text
  criticalCsv : Text
  stdin : Text

def ApplyCall.run (tool : Iptables) (a : ApplyCall) (h : Host) : Host × ApplyReply :=
  mainFirewallApply tool a.env a.window a.sshPort a.criticalCsv a.stdin h

inductive Event
  | apply (call : ApplyCall)
  | confirm
  | rollback
  | status (env : Env)
  | fire

/-- A host together with the ruleset it is measured against: the initial one,
the one last confirmed or the one last restored. -/
structure Tracked where
  host : Host
  reference : Ruleset

def Tracked.start (h : Host) : Tracked := ⟨h, h.live⟩

def Tracked.rollback (t : Tracked) : Tracked :=
  let out := cmdFirewallRollback t.host
  ⟨out.1, if out.2 = .rolledBack then out.1.live else t.reference⟩

def Tracked.confirm (t : Tracked) : Tracked :=
  let out := cmdFirewallConfirm t.host
  ⟨out.1, if out.2 = .confirmed then out.1.live else t.reference⟩

def Tracked.fire (t : Tracked) : Tracked :=
  ⟨fireTimer t.host, if t.host.timerLoaded then t.rollback.reference else t.reference⟩

/-- Each verb and the firing of the timer is one step. -/
def Tracked.step (tool : Iptables) (t : Tracked) : Event → Tracked
  | .apply call => ⟨(call.run tool t.host).1, t.reference⟩
  | .confirm => t.confirm
  | .rollback => t.rollback
  | .status _ => t
  | .fire => t.fire

/-- The live rules are the reference rules. -/
def Tracked.Settled (t : Tracked) : Prop := t.host.live = t.reference

section
variable {tool : Iptables} {t : Tracked}

/-- A rollback settles the host whenever the change can still be undone. -/
theorem Tracked.rollback_settled (settled : t.Settled ∨ t.host.committed = false ∧ t.host.snapshot.isSome) :
    t.rollback.Settled := by
  unfold Tracked.rollback Tracked.Settled cmdFirewallRollback
  rcases settled with same | ⟨uncommitted, some'⟩
  · split
    · exact same
    · split
      · exact same
      · rfl
  · obtain ⟨snapshot, found⟩ := Option.isSome_iff_exists.mp some'
    simp [uncommitted, found]

/-- Firing the timer restores what a rollback restores. -/
theorem fireTimer_live {h : Host} (loaded : h.timerLoaded = true) :
    (fireTimer h).live = (cmdFirewallRollback h).1.live := by
  simp [fireTimer, loaded]

theorem Tracked.fire_settled (settled : t.Settled ∨ t.host.committed = false ∧ t.host.snapshot.isSome) :
    t.fire.Settled ∨ t.host.timerLoaded = false := by
  cases loaded : t.host.timerLoaded with
  | false => exact .inr rfl
  | true =>
    refine .inl ?_
    rw [Settled, fire, fireTimer_live loaded, if_pos loaded]
    exact Tracked.rollback_settled settled

theorem Tracked.confirm_settled (settled : t.Settled ∨ fwPending t.host = true) :
    t.confirm.Settled := by
  rcases cmdFirewallConfirm_cases t.host with ⟨free, same, other⟩ | ⟨-, out⟩
  · rcases settled with settled | pending
    · rw [Settled, confirm, if_neg other, same]
      exact settled
    · rw [pending] at free
      cases free
  · simp [Settled, confirm, out]

/-- With a change pending, no apply gets past its refusals. -/
theorem ApplyCall.run_pending (call : ApplyCall) {h : Host} (pending : fwPending h = true) :
    (call.run tool h).1 = h := by
  have ran : call.run tool h = ((call.run tool h).1, (call.run tool h).2) := rfl
  rcases mainFirewallApply_cases ran with
    ⟨same, -⟩ | ⟨free, -⟩ | ⟨free, -⟩
  · exact same
  · rw [pending] at free; cases free
  · rw [pending] at free; cases free

/-- Otherwise it leaves the rules alone or installs new ones over a fresh
snapshot, uncommitted and with the timer loaded. -/
theorem ApplyCall.run_live (tool : Iptables) (call : ApplyCall) (h : Host) :
    (call.run tool h).1.live = h.live ∨
      fwPending (call.run tool h).1 = true ∧ (call.run tool h).1.snapshot = some h.live.save := by
  have ran : call.run tool h = ((call.run tool h).1, (call.run tool h).2) := rfl
  rcases mainFirewallApply_cases ran with
    ⟨same, -⟩ | ⟨-, staged, -⟩ | ⟨-, -, -, -, installed⟩
  · exact .inl (by rw [same])
  · refine .inl ?_
    rcases staged with staged | ⟨-, staged⟩
    · rw [staged]; rfl
    · rw [staged]; rfl
  · exact .inr (by rw [installed]; exact ⟨rfl, rfl⟩)

end

section
variable (tool : Iptables) (h : Host)

/-- The state after a run of verbs and timer firings. -/
def Tracked.after (es : List Event) : Tracked := Run.after (Tracked.step tool) (.start h) es

/-- The apply that took the host away from its reference rules: they agreed
before it and have differed ever since, and the snapshot it took is the one
still on disk. -/
structure Introduced (pre : List Event) (call : ApplyCall) (post : List Event) : Prop where
  settled : (Tracked.after tool h pre).Settled
  unsettled : ∀ mid, mid <+: post → ¬(Tracked.after tool h (pre ++ .apply call :: mid)).Settled
  snapshot : ∀ mid, mid <+: post →
    (Tracked.after tool h (pre ++ .apply call :: mid)).host.snapshot =
      some (Tracked.after tool h pre).host.live.save

end

section
variable {tool : Iptables} {h : Host} {es : List Event}

/-- An event that changes nothing prolongs the time since that apply. -/
theorem Introduced.extend {pre post : List Event} {call : ApplyCall}
    (introduced : Introduced tool h pre call post) {e : Event}
    (same : Tracked.after tool h (pre ++ .apply call :: (post ++ [e])) =
      Tracked.after tool h (pre ++ .apply call :: post)) :
    Introduced tool h pre call (post ++ [e]) := by
  refine ⟨introduced.settled, fun mid before => ?_, fun mid before => ?_⟩
  · rcases List.prefix_concat_iff.mp before with rfl | earlier
    · rw [same]
      exact introduced.unsettled post (List.prefix_refl _)
    · exact introduced.unsettled mid earlier
  · rcases List.prefix_concat_iff.mp before with rfl | earlier
    · rw [same]
      exact introduced.snapshot post (List.prefix_refl _)
    · exact introduced.snapshot mid earlier

/-- What holds after every run: the rules are the reference rules, or the
change is pending and one apply introduced it. -/
def Guarded (tool : Iptables) (h : Host) (es : List Event) : Prop :=
  (Tracked.after tool h es).Settled ∨
    fwPending (Tracked.after tool h es).host = true ∧
      ∃ pre call post, es = pre ++ .apply call :: post ∧ Introduced tool h pre call post

theorem Tracked.after_concat (es : List Event) (e : Event) :
    Tracked.after tool h (es ++ [e]) = (Tracked.after tool h es).step tool e :=
  Run.after_concat es e

/-- From reference rules, only an apply leads away, and it leads to a pending
change over a snapshot of them. -/
theorem Guarded.step_settled (settled : (Tracked.after tool h es).Settled) (e : Event) :
    Guarded tool h (es ++ [e]) := by
  unfold Guarded
  rw [Tracked.after_concat]
  cases e with
  | apply call =>
    by_cases same : ((Tracked.after tool h es).step tool (.apply call)).Settled
    · exact .inl same
    · rcases ApplyCall.run_live tool call (Tracked.after tool h es).host with
        unchanged | ⟨pending, snapshot⟩
      · exact absurd (unchanged.trans settled) same
      · refine .inr ⟨pending, es, call, [], rfl, settled, fun mid empty => ?_, fun mid empty => ?_⟩
        · rw [List.prefix_nil.mp empty, Tracked.after_concat]
          exact same
        · rw [List.prefix_nil.mp empty, Tracked.after_concat]
          exact snapshot
  | confirm => exact .inl (Tracked.confirm_settled (.inl settled))
  | rollback => exact .inl (Tracked.rollback_settled (.inl settled))
  | status env => exact .inl settled
  | fire =>
    refine .inl ?_
    rcases Tracked.fire_settled (.inl settled) with back | unloaded
    · exact back
    · simpa [Tracked.step, Tracked.fire, fireTimer, unloaded] using settled

/-- While a change is pending, applies are refused and the other verbs settle
it or change nothing. -/
theorem Guarded.step_pending {pre post : List Event} {call : ApplyCall}
    (pending : fwPending (Tracked.after tool h (pre ++ .apply call :: post)).host = true)
    (introduced : Introduced tool h pre call post) (e : Event) :
    Guarded tool h (pre ++ .apply call :: post ++ [e]) := by
  have undo : (Tracked.after tool h (pre ++ .apply call :: post)).host.committed = false ∧
      (Tracked.after tool h (pre ++ .apply call :: post)).host.snapshot.isSome := by
    rw [introduced.snapshot post (List.prefix_refl _)]
    exact ⟨fwPending_uncommitted pending, rfl⟩
  have longer : pre ++ Event.apply call :: post ++ [e] = pre ++ Event.apply call :: (post ++ [e]) := by
    simp
  have idle : Tracked.after tool h (pre ++ .apply call :: post ++ [e]) =
      Tracked.after tool h (pre ++ .apply call :: post) →
      Guarded tool h (pre ++ .apply call :: post ++ [e]) := by
    intro same
    refine .inr ⟨by rw [same]; exact pending, pre, call, post ++ [e], longer, ?_⟩
    rw [longer] at same
    exact introduced.extend same
  cases e with
  | apply other =>
    refine idle ?_
    rw [Tracked.after_concat, Tracked.step, ApplyCall.run_pending other pending]
  | status env => exact idle (Tracked.after_concat _ _)
  | confirm =>
    refine .inl ?_
    rw [Tracked.after_concat]
    exact Tracked.confirm_settled (.inr pending)
  | rollback =>
    refine .inl ?_
    rw [Tracked.after_concat]
    exact Tracked.rollback_settled (.inr undo)
  | fire =>
    refine .inl ?_
    rw [Tracked.after_concat]
    rcases Tracked.fire_settled (.inr undo) with back | unloaded
    · exact back
    · rw [fwPending_loaded pending] at unloaded
      cases unloaded

theorem guarded (tool : Iptables) (h : Host) (es : List Event) : Guarded tool h es := by
  induction es using List.reverseRecOn with
  | nil => exact .inl rfl
  | append_singleton es e ih =>
    rcases ih with settled | ⟨pending, pre, call, post, rfl, introduced⟩
    · exact Guarded.step_settled settled e
    · exact Guarded.step_pending pending introduced e

end

/-- At every point of every run, rules that differ from the reference stand
under a loaded, uncommitted timer. Firing it brings back exactly the rules
from before the apply that introduced the difference, and neither an apply
since then nor a further one replaces the snapshot. -/
theorem armed_rollback (tool : Iptables) (h : Host) (es : List Event)
    (differs : (Tracked.after tool h es).host.live ≠ (Tracked.after tool h es).reference) :
    (Tracked.after tool h es).host.timerLoaded = true ∧
      (Tracked.after tool h es).host.committed = false ∧
      ∃ pre call post, es = pre ++ .apply call :: post ∧ Introduced tool h pre call post ∧
        (fireTimer (Tracked.after tool h es).host).live = (Tracked.after tool h pre).host.live ∧
        ∀ other : ApplyCall, (other.run tool (Tracked.after tool h es).host).1.snapshot =
          some (Tracked.after tool h pre).host.live.save := by
  rcases guarded tool h es with settled | ⟨pending, pre, call, post, rfl, introduced⟩
  · exact absurd settled differs
  · have snapshot := introduced.snapshot post (List.prefix_refl _)
    have loaded := fwPending_loaded pending
    have uncommitted := fwPending_uncommitted pending
    refine ⟨loaded, uncommitted, pre, call, post, rfl, introduced, ?_, fun other => ?_⟩
    · rw [fireTimer_live loaded, cmdFirewallRollback, uncommitted, if_neg (by decide), snapshot]
      exact Ruleset.restore_save _ _
    · rw [ApplyCall.run_pending other pending, snapshot]

def dropAllTool : Iptables := ⟨fun _ => none, fun _ _ => .bare .drop⟩

def sampleCall : ApplyCall := ⟨⟨false, true, 0⟩, Text.itoa 60, Text.itoa 22, [], []⟩

theorem armed_rollback_sample :
    (Tracked.after dropAllTool (.fresh (.bare .accept)) [.apply sampleCall, .status ⟨false, true, 5⟩]).host.timerLoaded
      = true :=
  (armed_rollback dropAllTool (.fresh (.bare .accept)) [.apply sampleCall, .status ⟨false, true, 5⟩]
    (fun same => absurd (congrArg (fun r : Ruleset => (r.filter.builtin .input).policy) same)
      (by decide))).1

end Protean.Firewall
