import Protean.Firewall.Reading
import Protean.Firewall.Rollback

open Netfilter

namespace Protean.Firewall

/-- A packet filter that replaces the full content of every table its input
names. How it reads a rule specification and words its complaints is left open. -/
def Iptables.replacing (read : List Text → Option Netfilter.Rule) (complain : Text → Text) : Iptables where
  test := fun text => if (readRestore read text).isSome then none else some (complain text)
  load := fun text live => ((readRestore read text).map fun d => Ruleset.restore d live).getD live

/-- An apply of a text that `Render` produced; the heredoc adds one newline. -/
structure RenderedCall where
  env : Env
  window : Text
  sshPort : Text
  criticalCsv : Text
  policy : Policy
  sorted : List BaselinePort
  rules : List Rule

def RenderedCall.call (c : RenderedCall) : ApplyCall where
  env := c.env
  window := c.window
  sshPort := c.sshPort
  criticalCsv := c.criticalCsv
  stdin := renderSorted c.policy c.sorted c.rules ++ ['\n']

def RenderedCall.OneLine (c : RenderedCall) : Prop :=
  (∀ bp ∈ c.sorted, bp.OneLine) ∧ ∀ r ∈ c.rules, r.OneLine

/-- The firewall verbs and the timer, and between them anything that edits
`FORWARD`, `OUTPUT` or another table. -/
inductive FrameEvent
  | apply (c : RenderedCall)
  | confirm
  | rollback
  | fire
  | status (env : Env)
  | edit (f : Netfilter.Frame → Netfilter.Frame)

/-- The host, and what lies outside `INPUT` as the edits alone would have it. -/
structure Framed where
  host : Host
  expected : Netfilter.Frame

def Framed.start (h : Host) : Framed := ⟨h, h.live.frame⟩

def Framed.step (tool : Iptables) (s : Framed) : FrameEvent → Framed
  | .apply c => { s with host := (c.call.run tool s.host).1 }
  | .confirm => { s with host := (cmdFirewallConfirm s.host).1 }
  | .rollback => { s with host := (cmdFirewallRollback s.host).1 }
  | .fire => { s with host := fireTimer s.host }
  | .status _ => s
  | .edit f =>
    ⟨{ s.host with live := s.host.live.setFrame (f s.host.live.frame) }, f s.expected⟩

/-- What a flushed chain looks like. -/
def flushed : Chain := ⟨.accept, []⟩

/-- A listing that holds the same `FORWARD`, `OUTPUT` and other tables. -/
def Agrees (d : Dump) (f : Netfilter.Frame) : Prop :=
  (∀ t, d.filter = some t → t.builtin .forward = f.forward ∧ t.builtin .output = f.output) ∧
    ∀ name t, d.side name = some t → t = f.side name

/-- The verbs stay within `INPUT` when an apply finds nothing else to flush
and a restored snapshot holds nothing else that has changed. -/
def Framed.Contained (s : Framed) : FrameEvent → Prop
  | .apply c => fwPending s.host = false → s.host.timerLoaded = false →
      c.OneLine ∧ s.host.live.frame.forward = flushed ∧ s.host.live.frame.output = flushed
  | .rollback => s.host.committed = false →
      ∀ d, s.host.snapshot = some d → Agrees d s.host.live.frame
  | .fire => s.host.timerLoaded = true → s.host.committed = false →
      ∀ d, s.host.snapshot = some d → Agrees d s.host.live.frame
  | _ => True

theorem frame_restore {d : Dump} {r : Ruleset} (agrees : Agrees d r.frame) :
    (Ruleset.restore d r).frame = r.frame := by
  obtain ⟨chains, side⟩ := agrees
  have filter : (d.filter.getD r.filter).builtin .forward = r.filter.builtin .forward ∧
      (d.filter.getD r.filter).builtin .output = r.filter.builtin .output := by
    cases found : d.filter with
    | none => exact ⟨rfl, rfl⟩
    | some t => exact chains t found
  have tables : (fun name => (d.side name).getD (r.side name)) = r.side := by
    funext name
    cases found : d.side name with
    | none => rfl
    | some t => exact side name t found
  simp only [Ruleset.restore, Ruleset.frame, filter, tables]

theorem frame_installGuards (sshPort criticalCsv : Text) (live : Ruleset) :
    (installGuards sshPort criticalCsv live).frame = live.frame := by
  unfold installGuards
  induction guards sshPort criticalCsv generalizing live with
  | nil => rfl
  | cons spec specs ih =>
    rw [List.foldl_cons, ih, insertGuard]
    split
    · exact Ruleset.frame_insert_input live _
    · rfl

section
variable {read : List Text → Option Netfilter.Rule} {complain : Text → Text}

/-- Loading a rendered text flushes `FORWARD` and `OUTPUT` and leaves the
other tables. -/
theorem frame_load {c : RenderedCall} (single : c.OneLine)
    (accepted : (Iptables.replacing read complain).test c.call.stdin = none) (live : Ruleset) :
    ((Iptables.replacing read complain).load c.call.stdin live).frame =
      ⟨flushed, flushed, live.side⟩ := by
  have reading : readRestore read c.call.stdin = _ :=
    readRestore_renderSorted read c.policy single.1 single.2 1
  cases chain : ((chainWords c.sorted c.rules).map lineArgs).mapM read with
  | none => simp [Iptables.replacing, reading, chain] at accepted
  | some rules =>
    simp only [Iptables.replacing, reading, chain, Option.map_some, Option.getD_some]
    rfl

/-- One step keeps what lies outside `INPUT` as expected. -/
theorem Framed.step_contained {s : Framed} {e : FrameEvent} (kept : s.host.live.frame = s.expected)
    (contained : s.Contained e) :
    (s.step (.replacing read complain) e).host.live.frame =
      (s.step (.replacing read complain) e).expected := by
  have undo : (s.host.committed = false → ∀ d, s.host.snapshot = some d → Agrees d s.host.live.frame) →
      (cmdFirewallRollback s.host).1.live.frame = s.expected := by
    intro agrees
    rcases cmdFirewallRollback_cases s.host with ⟨same, -⟩ | ⟨uncommitted, d, snapshot, reverted⟩
    · rw [same, kept]
    · rw [reverted]
      exact (frame_restore (agrees uncommitted d snapshot)).trans kept
  cases e with
  | apply c =>
    have ran : c.call.run (.replacing read complain) s.host =
      ((c.call.run (.replacing read complain) s.host).1, (c.call.run (.replacing read complain) s.host).2) := rfl
    simp only [Framed.step]
    rcases mainFirewallApply_cases ran with ⟨same, -⟩ | ⟨-, staged, -⟩ | ⟨free, unloaded, accepted, -, host⟩
    · rw [same, kept]
    · rcases staged with staged | ⟨-, staged⟩ <;> rw [staged] <;> exact kept
    · obtain ⟨single, forward, output⟩ := contained free unloaded
      rw [host]
      calc
        _ = _ := frame_installGuards _ _ _
        _ = ⟨flushed, flushed, s.host.live.side⟩ := frame_load single accepted s.host.live
        _ = s.host.live.frame :=
          congrArg₂ (fun f o => (⟨f, o, s.host.live.side⟩ : Netfilter.Frame)) forward.symm output.symm
        _ = s.expected := kept
  | confirm =>
    simp only [Framed.step]
    rcases cmdFirewallConfirm_cases s.host with ⟨-, same, -⟩ | ⟨-, out⟩
    · rw [same, kept]
    · rw [out]; exact kept
  | rollback => exact undo contained
  | fire =>
    simp only [Framed.step]
    cases loaded : s.host.timerLoaded with
    | true => rw [fireTimer_live loaded]; exact undo (contained loaded)
    | false => rw [fireTimer, loaded]; exact kept
  | status env => exact kept
  | edit f =>
    simp only [Framed.step]
    rw [Ruleset.frame_setFrame, kept]

end

/-- In every run whose steps are contained, everything outside `INPUT` is at
every point what the other edits alone made it. -/
theorem firewall_manages_input_only (read : List Text → Option Netfilter.Rule)
    (complain : Text → Text) (h : Host) (es : List FrameEvent)
    (contained : Run.Meets (Framed.step (.replacing read complain)) Framed.Contained (.start h) es) :
    (Run.after (Framed.step (.replacing read complain)) (.start h) es).host.live.frame =
      (Run.after (Framed.step (.replacing read complain)) (.start h) es).expected :=
  Run.Meets.invariant (fun s => s.host.live.frame = s.expected)
    (fun _ _ kept ok => Framed.step_contained kept ok) rfl contained

/-- A host that isolates one peer in `FORWARD`. -/
def isolating : Host :=
  .fresh ((Ruleset.bare .accept).insert .forward
    { src := .host (addrOf 10 0 0 2), target := some .drop })

/-- A ruleset without rules of its own. -/
def emptyCall : RenderedCall :=
  ⟨⟨false, true, 0⟩, Text.itoa 60, Text.itoa 22, [], ⟨Field.drop⟩, [], []⟩

/-- An apply, a panic rollback and the leftover timer, on a host whose
`FORWARD` and `OUTPUT` are empty. -/
theorem firewall_manages_input_only_sample :
    (Run.after (Framed.step (.replacing readRule id)) (.start (.fresh (.bare .accept)))
      [.apply emptyCall, .rollback, .fire]).host.live.frame = (Ruleset.bare .accept).frame := by
  refine firewall_manages_input_only readRule id (.fresh (.bare .accept))
    [.apply emptyCall, .rollback, .fire] ⟨fun _ _ => ⟨⟨nofun, nofun⟩, rfl, rfl⟩, fun _ d snapshot => ?_,
      fun _ _ d snapshot => ?_, trivial⟩
  all_goals
    cases snapshot
    exact ⟨fun t filter => by cases filter; exact ⟨rfl, rfl⟩, fun name t side => by cases side; rfl⟩

/-- Applying a ruleset with no rules at all removes the isolation. -/
theorem apply_flushes_forward :
    (Run.after (Framed.step (.replacing readRule id)) (.start isolating) [.apply emptyCall]).host.live.frame ≠
      (Run.after (Framed.step (.replacing readRule id)) (.start isolating) [.apply emptyCall]).expected := by
  intro same
  exact absurd (congrArg (fun f : Netfilter.Frame => f.forward.rules.length) same) (by decide)

end Protean.Firewall
