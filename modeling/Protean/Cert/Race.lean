import Protean.Cert.Effect
import Protean.Publish
import Protean.Run

/- The calls that rewrite the revocation list of one instance, step by step.
`RemovePeer` holds the lock of the provider, `RebuildCRL` takes none. -/
namespace Protean.Cert

open Publish (Act drawers publishers since InOrder Fresh number)

inductive Call
  | rebuildCRL
  | removePeer (id : Text)
  deriving DecidableEq, Repr

/-- What a call does next, with what it has found so far. After the list is
written, `RemovePeer` goes on with its peer. -/
inductive Stage
  | waiting
  | find (id : Text)
  | record (id : Text) (serial : Int)
  | authority (peer : Option Text)
  | list (peer : Option Text) (ca : CA)
  | number (peer : Option Text) (ca : CA) (rows : List RevokedCertRow)
  | write (peer : Option Text) (ca : CA) (rows : List RevokedCertRow) (number : Nat)
  | removeFile (id : Text)
  | delete (id : Text)
  | returned
  deriving DecidableEq, Repr

/-- The instance, who holds the lock, and the calls under way. The last two fields
only record history: what the calls did to the revocation list, and the numbers
of the lists in the order in which they came to the host. -/
structure Race where
  state : State
  holder : Option Nat
  stages : Nat → Stage
  log : List (Act Nat Int)
  written : List Nat

namespace Race

def start (s : State) : Race := ⟨s, none, fun _ => .waiting, [], []⟩

def goto (w : Race) (i : Nat) (stage : Stage) : Race := { w with stages := Function.update w.stages i stage }

def onState (w : Race) (s : State) (acts : List (Act Nat Int)) : Race := { w with state := s, log := w.log ++ acts }

/-- The deferred unlock of a call that has the lock. -/
def finish (w : Race) (i : Nat) : Race :=
  { w.goto i .returned with holder := if w.holder = some i then none else w.holder }

/-- The next step of a call, all calls of the store and the host succeeding. -/
def step (crypto : Crypto) (kind : Kind) (calls : Nat → Call) (w : Race) (turn : Nat × Nat) : Race :=
  let i := turn.1
  let env : Env := { now := turn.2 }
  match w.stages i with
  | .waiting =>
    match calls i with
    | .rebuildCRL => w.goto i (.authority none)
    | .removePeer id => if w.holder = none then { w.goto i (.find id) with holder := some i } else w
  | .find id =>
    match ((getClient env id).exec w.state).1 with
    | none => w.goto i (.removeFile id)
    | some row =>
      match crypto.serial row.certPEM with
      | none => w.finish i
      | some serial => w.goto i (.record id serial)
  | .record id serial =>
    let acts := if Text.itoa serial ∈ w.state.revoked.map (·.serial) then [] else [.record i serial]
    (w.onState ((addRevokedCert env (Text.itoa serial) id).exec w.state).2 acts).goto i (.authority (some id))
  | .authority peer =>
    match (getCA crypto env).exec w.state with
    | (none, s) => (w.onState s []).finish i
    | (some ca, s) => (w.onState s []).goto i (.list peer ca)
  | .list peer ca => (w.onState w.state [.list i]).goto i (.number peer ca w.state.revoked)
  | .number peer ca rows =>
    let n := w.state.crlNumber.getD 0 + 1
    (w.onState { w.state with crlNumber := some n } [.draw i]).goto i (.write peer ca rows n)
  | .write peer ca rows n =>
    let w' := { w.onState { w.state with crl := some ⟨ca, crlEntries rows, n⟩ } [.publish i] with
      written := w.written ++ [n] }
    match peer with
    | none => w'.finish i
    | some id => w'.goto i (.removeFile id)
  | .removeFile id =>
    (w.onState (if kind = .openvpn then ((removeCCD env id).exec w.state).2 else w.state) []).goto i (.delete id)
  | .delete id => (w.onState ((deleteClient env id).exec w.state).2 []).finish i
  | .returned => w

def run (crypto : Crypto) (kind : Kind) (calls : Nat → Call) (s : State) (turns : List (Nat × Nat)) : Race :=
  Run.after (step crypto kind calls) (start s) turns

end Race

/-- How far a call has come with the revocation list. -/
inductive Phase
  | early
  | owing
  | listed
  | numbered
  | done
  deriving DecidableEq, Repr

def Stage.phase : Stage → Phase
  | .waiting | .find _ | .record _ _ => .early
  | .authority _ | .list _ _ => .owing
  | .number _ _ _ => .listed
  | .write _ _ _ _ => .numbered
  | .removeFile _ | .delete _ | .returned => .done

/-- The rows that a call is going to write. -/
def Stage.rows : Stage → Option (List RevokedCertRow)
  | .number _ _ rows | .write _ _ rows _ => some rows
  | _ => none

/-- How a stage gives way to another without a touch of the revocation list. -/
structure Passes (call : Call) (old new : Stage) : Prop where
  forward : new.phase = old.phase ∨ old.phase = .early ∧ (new.phase = .owing ∨ new.phase = .done)
  rebuild : call = .rebuildCRL → old = .waiting → new.phase = .owing
  idle : old.rows = none ∧ new.rows = none

theorem Stage.phase_ne_numbered {stage : Stage} (rows : stage.rows = none) : stage.phase ≠ .numbered := by
  intro phase
  cases stage with
  | write => cases rows
  | _ => cases phase

theorem Stage.phase_ne_listed {stage : Stage} (rows : stage.rows = none) : stage.phase ≠ .listed := by
  intro phase
  cases stage with
  | number => cases rows
  | _ => cases phase

theorem Stage.rows_of_done {stage : Stage} (finished : stage.phase = .done) : stage.rows = none := by
  cases stage with
  | number | write => cases finished
  | _ => rfl

theorem Passes.phase_ne_numbered {call : Call} {old new : Stage} (passes : Passes call old new) :
    old.phase ≠ .numbered ∧ new.phase ≠ .numbered ∧ (old.phase = .done → new.phase = .done) := by
  refine ⟨Stage.phase_ne_numbered passes.idle.1, Stage.phase_ne_numbered passes.idle.2, fun finished => ?_⟩
  rcases passes.forward with same | ⟨early, _⟩
  · exact same.trans finished
  · cases early.symm.trans finished

variable {ca : CA}

namespace Race

/-- A step that leaves the revocations, their list and its number alone. -/
structure Quiet (calls : Nat → Call) (w w' : Race) (i : Nat) (stage : Stage) : Prop where
  ca : w'.state.ca = w.state.ca
  revoked : w'.state.revoked = w.state.revoked
  crlNumber : w'.state.crlNumber = w.state.crlNumber
  crl : w'.state.crl = w.state.crl
  log : w'.log = w.log
  written : w'.written = w.written
  stages : w'.stages = Function.update w.stages i stage
  passes : Passes (calls i) (w.stages i) stage

/-- The step by which a call writes its list. -/
def wrote (w : Race) (i : Nat) (stage : Stage) (holder : Option Nat) (crl : CRL) : Race where
  state := { w.state with crl := some crl }
  holder := holder
  stages := Function.update w.stages i stage
  log := w.log ++ [.publish i]
  written := w.written ++ [crl.number]

/-- What one step can do while the authority is in memory. -/
inductive Moves (calls : Nat → Call) (w : Race) (i now : Nat) : Race → Prop
  | stays : Moves calls w i now w
  | quiet {w' : Race} {stage : Stage} (quiet : Quiet calls w w' i stage) : Moves calls w i now w'
  | record {id : Text} {serial : Int} (here : w.stages i = .record id serial)
      (new : Text.itoa serial ∉ w.state.revoked.map (·.serial)) :
      Moves calls w i now
        ((w.onState { w.state with revoked := w.state.revoked ++ [⟨Text.itoa serial, id, now⟩] }
          [.record i serial]).goto i (.authority (some id)))
  | list {peer : Option Text} {ca : CA} (here : w.stages i = .list peer ca) :
      Moves calls w i now ((w.onState w.state [.list i]).goto i (.number peer ca w.state.revoked))
  | draw {peer : Option Text} {ca : CA} {rows : List RevokedCertRow} (here : w.stages i = .number peer ca rows) :
      Moves calls w i now
        ((w.onState { w.state with crlNumber := some (w.state.crlNumber.getD 0 + 1) } [.draw i]).goto i
          (.write peer ca rows (w.state.crlNumber.getD 0 + 1)))
  | publish {peer : Option Text} {ca : CA} {rows : List RevokedCertRow} {n : Nat} {stage : Stage} {holder : Option Nat}
      (here : w.stages i = .write peer ca rows n) (finished : stage.phase = .done) :
      Moves calls w i now (w.wrote i stage holder ⟨ca, crlEntries rows, n⟩)

section
variable {crypto : Crypto} {kind : Kind} {calls : Nat → Call} {w w' : Race} {i now : Nat}

theorem step_moves (memory : w.state.ca.isSome = true) : Moves calls w i now (step crypto kind calls w (i, now)) := by
  unfold step
  dsimp only
  cases here : w.stages i with
  | waiting =>
    dsimp only
    cases call : calls i with
    | rebuildCRL =>
      have passes : Passes (calls i) (w.stages i) (.authority none) := by
        rw [here]
        exact ⟨.inr ⟨rfl, .inl rfl⟩, fun _ _ => rfl, rfl, rfl⟩
      exact .quiet ⟨rfl, rfl, rfl, rfl, rfl, rfl, rfl, passes⟩
    | removePeer id =>
      have passes : Passes (calls i) (w.stages i) (.find id) := by
        rw [here, call]
        exact ⟨.inl rfl, nofun, rfl, rfl⟩
      dsimp only
      split
      · exact .quiet ⟨rfl, rfl, rfl, rfl, rfl, rfl, rfl, passes⟩
      · exact .stays
  | find id =>
    have passes : ∀ stage : Stage, stage.phase = .early ∨ stage.phase = .done → stage.rows = none →
        Passes (calls i) (w.stages i) stage := by
      intro stage phase rows
      rw [here]
      exact ⟨phase.imp_right fun finished => ⟨rfl, .inr finished⟩, fun _ => nofun, rfl, rows⟩
    dsimp only
    split
    · exact .quiet ⟨rfl, rfl, rfl, rfl, rfl, rfl, rfl, passes (.removeFile id) (.inr rfl) rfl⟩
    · split
      · exact .quiet ⟨rfl, rfl, rfl, rfl, rfl, rfl, rfl, passes .returned (.inr rfl) rfl⟩
      · exact .quiet ⟨rfl, rfl, rfl, rfl, rfl, rfl, rfl, passes (.record id _) (.inl rfl) rfl⟩
  | record id serial =>
    by_cases known : Text.itoa serial ∈ w.state.revoked.map (·.serial)
    · have same : ((addRevokedCert { now := now } (Text.itoa serial) id).exec w.state).2 = w.state := if_pos known
      have passes : Passes (calls i) (w.stages i) (.authority (some id)) := by
        rw [here]
        exact ⟨.inr ⟨rfl, .inl rfl⟩, fun _ => nofun, rfl, rfl⟩
      dsimp only
      rw [same, if_pos known]
      exact .quiet ⟨rfl, rfl, rfl, rfl, List.append_nil _, rfl, rfl, passes⟩
    · have added : ((addRevokedCert { now := now } (Text.itoa serial) id).exec w.state).2 =
          { w.state with revoked := w.state.revoked ++ [⟨Text.itoa serial, id, now⟩] } := if_neg known
      dsimp only
      rw [added, if_neg known]
      exact .record here known
  | authority peer =>
    obtain ⟨ca, cached⟩ := Option.isSome_iff_exists.mp memory
    have found : (getCA crypto { now := now }).exec w.state = (some ca, w.state) := by
      unfold getCA
      rw [Proc.exec_bind, Proc.exec_attempt, Proc.exec_read, cached]
      rfl
    have passes : Passes (calls i) (w.stages i) (.list peer ca) := by
      rw [here]
      exact ⟨.inl rfl, fun _ => nofun, rfl, rfl⟩
    dsimp only
    rw [found]
    exact .quiet ⟨rfl, rfl, rfl, rfl, List.append_nil _, rfl, rfl, passes⟩
  | list peer ca => exact .list here
  | number peer ca rows => exact .draw here
  | write peer ca rows n =>
    cases peer with
    | none | some id => exact .publish here rfl
  | removeFile id =>
    have passes : Passes (calls i) (w.stages i) (.delete id) := by
      rw [here]
      exact ⟨.inl rfl, fun _ => nofun, rfl, rfl⟩
    cases kind <;> exact .quiet ⟨rfl, rfl, rfl, rfl, List.append_nil _, rfl, rfl, passes⟩
  | delete id =>
    have passes : Passes (calls i) (w.stages i) .returned := by
      rw [here]
      exact ⟨.inl rfl, fun _ => nofun, rfl, rfl⟩
    exact .quiet ⟨rfl, rfl, rfl, rfl, List.append_nil _, rfl, rfl, passes⟩
  | returned => exact .stays

/-- A call whose list is still to come. -/
def Owes (w : Race) (i : Nat) : Prop :=
  ((w.stages i).phase = .owing ∨ (w.stages i).phase = .listed ∨ (w.stages i).phase = .numbered) ∨ i ∈ publishers w.log

/-- Who has drawn a number and who has written, and which numbers these are. -/
structure Numbered (base : Nat) (w : Race) : Prop where
  drew : ∀ i, i ∈ drawers w.log ↔ (w.stages i).phase = .numbered ∨ i ∈ publishers w.log
  finished : ∀ i ∈ publishers w.log, (w.stages i).phase = .done
  drewOnce : (drawers w.log).Nodup
  wroteOnce : (publishers w.log).Nodup
  count : w.state.crlNumber.getD 0 = base + (drawers w.log).length
  written : w.written = (publishers w.log).map (number base w.log)
  holds : ∀ i peer ca rows n, w.stages i = .write peer ca rows n → n = number base w.log i

variable {stage : Stage} {base : Nat}

/-- A step of one call. -/
theorem Numbered.act {draws writes : List Nat} (inv : Numbered base w)
    (stages : w'.stages = Function.update w.stages i stage) (drawn : drawers w'.log = drawers w.log ++ draws)
    (published : publishers w'.log = publishers w.log ++ writes) (mine : draws ⊆ [i] ∧ writes ⊆ [i])
    (once : draws.Nodup ∧ writes.Nodup) (drew : i ∈ drawers w'.log ↔ stage.phase = .numbered ∨ i ∈ publishers w'.log)
    (undrawn : i ∈ draws → i ∉ drawers w.log) (finished : i ∈ publishers w'.log → stage.phase = .done)
    (unpublished : i ∈ writes → i ∉ publishers w.log)
    (count : w'.state.crlNumber.getD 0 = w.state.crlNumber.getD 0 + draws.length)
    (written : w'.written = w.written ++ writes.map (number base w'.log))
    (holds : ∀ peer ca rows n, stage = .write peer ca rows n → n = number base w'.log i) : Numbered base w' := by
  have own : ∀ {l : List Nat} {j : Nat}, l ⊆ [i] → j ∈ l → j = i := fun sub member => List.mem_singleton.mp (sub member)
  have fresh : ∀ {l l' : List Nat}, l ⊆ [i] → l.Nodup → (i ∈ l → i ∉ l') → l'.Nodup → (l' ++ l).Nodup := by
    intro l l' sub nodup new old
    refine List.nodup_append.mpr ⟨old, nodup, fun a member b last same => ?_⟩
    obtain rfl := own sub last
    exact new last (same ▸ member)
  have kept : ∀ j ∈ drawers w.log, number base w'.log j = number base w.log j := fun j member => by
    rw [number, number, drawn, List.idxOf_append_of_mem member]
  refine ⟨fun j => ?_, fun j member => ?_, ?_, ?_, ?_, ?_, fun j peer ca rows n here => ?_⟩
  · by_cases same : j = i
    · rw [same, stages, Function.update_self]
      exact drew
    · rw [drawn, published, List.mem_append, List.mem_append, stages, Function.update_of_ne same, inv.drew]
      have none : j ∉ draws ∧ j ∉ writes := ⟨fun member => same (own mine.1 member), fun member => same (own mine.2 member)⟩
      simp [none]
  · by_cases same : j = i
    · rw [same, stages, Function.update_self]
      exact finished (same ▸ member)
    · rw [published, List.mem_append] at member
      rw [stages, Function.update_of_ne same]
      exact inv.finished j (member.resolve_right fun new => same (own mine.2 new))
  · rw [drawn]
    exact fresh mine.1 once.1 undrawn inv.drewOnce
  · rw [published]
    exact fresh mine.2 once.2 unpublished inv.wroteOnce
  · rw [count, inv.count, drawn, List.length_append, Nat.add_assoc]
  · rw [written, published, List.map_append, inv.written]
    exact congrArg (· ++ _) (List.map_congr_left fun j member => (kept j ((inv.drew j).mpr (.inr member))).symm)
  · rw [stages] at here
    by_cases same : j = i
    · rw [same, Function.update_self] at here
      exact same ▸ holds peer ca rows n here
    · rw [Function.update_of_ne same] at here
      rw [kept j ((inv.drew j).mpr (.inl (congrArg Stage.phase here)))]
      exact inv.holds j peer ca rows n here

/-- A step before the number is drawn, or after the list is written. -/
theorem Numbered.pass (inv : Numbered base w) (drawn : drawers w'.log = drawers w.log)
    (published : publishers w'.log = publishers w.log) (count : w'.state.crlNumber = w.state.crlNumber)
    (written : w'.written = w.written) (stages : w'.stages = Function.update w.stages i stage)
    (before : (w.stages i).phase ≠ .numbered) (after : stage.phase ≠ .numbered)
    (stays : (w.stages i).phase = .done → stage.phase = .done) : Numbered base w' := by
  refine inv.act stages (drawn.trans (List.append_nil _).symm) (published.trans (List.append_nil _).symm) ⟨nofun, nofun⟩
    ⟨.nil, .nil⟩ ?_ nofun (fun member => stays (inv.finished i (published ▸ member))) nofun (congrArg (·.getD 0) count)
    (written.trans (List.append_nil _).symm) fun peer ca rows n here => absurd (congrArg Stage.phase here) after
  rw [drawn, published, inv.drew]
  simp only [before, after]

theorem Numbered.draw {peer : Option Text} {rows : List RevokedCertRow}
    (inv : Numbered base w) (here : w.stages i = .number peer ca rows) :
    Numbered base ((w.onState { w.state with crlNumber := some (w.state.crlNumber.getD 0 + 1) } [.draw i]).goto i
      (.write peer ca rows (w.state.crlNumber.getD 0 + 1))) := by
  have phase : (w.stages i).phase = .listed := congrArg Stage.phase here
  have unpublished : i ∉ publishers w.log := fun member => by
    cases phase.symm.trans (inv.finished i member)
  have undrawn : i ∉ drawers w.log := fun member =>
    ((inv.drew i).mp member).elim (fun numbered => by cases phase.symm.trans numbered) unpublished
  have drawn : drawers (w.log ++ [Act.draw i]) = drawers w.log ++ [i] := Publish.drawers_concat _ _
  have published : publishers (w.log ++ [(Act.draw i : Act Nat Int)]) = publishers w.log ++ [] := Publish.publishers_concat _ _
  refine inv.act rfl drawn published ⟨List.Subset.refl _, nofun⟩ ⟨List.nodup_singleton i, .nil⟩ ?_ (fun _ => undrawn)
    (fun member => ?_) nofun rfl (List.append_nil _).symm fun _ _ _ n same => ?_
  · exact iff_of_true (drawn ▸ List.mem_append_right _ (List.mem_singleton_self i)) (.inl rfl)
  · exact absurd (List.append_nil (publishers w.log) ▸ published ▸ member) unpublished
  · cases same
    exact (congrArg (· + 1) inv.count).trans (Publish.number_draw undrawn base).symm

theorem Numbered.publish {peer : Option Text} {rows : List RevokedCertRow} {n : Nat} {holder : Option Nat} (inv : Numbered base w) (here : w.stages i = .write peer ca rows n)
    (finished : stage.phase = .done) : Numbered base (w.wrote i stage holder ⟨ca, crlEntries rows, n⟩) := by
  have phase : (w.stages i).phase = .numbered := congrArg Stage.phase here
  have drew : i ∈ drawers w.log := (inv.drew i).mpr (.inl phase)
  have unpublished : i ∉ publishers w.log := fun member => by
    cases phase.symm.trans (inv.finished i member)
  have drawn : drawers (w.log ++ [(Act.publish i : Act Nat Int)]) = drawers w.log ++ [] := Publish.drawers_concat _ _
  have published : publishers (w.log ++ [(Act.publish i : Act Nat Int)]) = publishers w.log ++ [i] :=
    Publish.publishers_concat _ _
  have number : n = number base (w.log ++ [.publish i]) i :=
    (inv.holds i peer ca rows n here).trans (Publish.number_concat drew base).symm
  refine inv.act rfl drawn published ⟨nofun, List.Subset.refl _⟩ ⟨.nil, List.nodup_singleton i⟩ ?_ nofun (fun _ => finished)
    (fun _ => unpublished) rfl (congrArg (w.written ++ [·]) number) fun _ _ _ _ same => ?_
  · exact iff_of_true (drawn ▸ List.mem_append_left _ drew) (.inr (published ▸ List.mem_append_right _ (List.mem_singleton_self i)))
  · cases finished.symm.trans (congrArg Stage.phase same)

theorem Numbered.moves (inv : Numbered base w) (moves : Moves calls w i now w') : Numbered base w' := by
  cases moves with
  | stays => exact inv
  | quiet quiet =>
    obtain ⟨before, after, stays⟩ := quiet.passes.phase_ne_numbered
    exact inv.pass (congrArg drawers quiet.log) (congrArg publishers quiet.log) quiet.crlNumber quiet.written
      quiet.stages before after stays
  | record here new =>
    have phase : (w.stages i).phase = .early := congrArg Stage.phase here
    exact inv.pass ((Publish.drawers_concat _ _).trans (List.append_nil _))
      ((Publish.publishers_concat _ _).trans (List.append_nil _)) rfl rfl rfl (by rw [phase]; exact nofun) nofun
      (by rw [phase]; exact nofun)
  | list here =>
    have phase : (w.stages i).phase = .owing := congrArg Stage.phase here
    exact inv.pass ((Publish.drawers_concat _ _).trans (List.append_nil _))
      ((Publish.publishers_concat _ _).trans (List.append_nil _)) rfl rfl rfl (by rw [phase]; exact nofun) nofun
      (by rw [phase]; exact nofun)
  | draw here => exact inv.draw here
  | publish here finished => exact inv.publish here finished

/-- What a call has read, beside what is on record by now. -/
def Seen (w : Race) (i : Nat) (rows : List RevokedCertRow) : Prop :=
  Publish.Listed w.log i ∧ ∃ later, w.state.revoked = rows ++ later ∧
    later.map (·.serial) = (since w.log i).map Text.itoa ∧ ∀ n ∈ since w.log i, Text.itoa n ∉ rows.map (·.serial)

section
variable {j : Nat} {rows : List RevokedCertRow}

theorem Seen.act {a : Act Nat Int} (seen : w.Seen j rows) (log : w'.log = w.log ++ [a]) (silent : Publish.records [a] = [])
    (revoked : w'.state.revoked = w.state.revoked) : w'.Seen j rows := by
  obtain ⟨listed, later, split, same, new⟩ := seen
  have unchanged : since w'.log j = since w.log j := by
    rw [log, Publish.since_concat listed, silent, List.append_nil]
  refine ⟨?_, later, revoked.trans split, ?_, ?_⟩
  · rw [log]
    exact List.mem_append_left _ listed
  · rw [unchanged]
    exact same
  · rw [unchanged]
    exact new

theorem Seen.quiet (seen : w.Seen j rows) (log : w'.log = w.log) (revoked : w'.state.revoked = w.state.revoked) :
    w'.Seen j rows := by
  unfold Seen at seen ⊢
  rw [log, revoked]
  exact seen

/-- A new revocation is one more that the call has not read. -/
theorem Seen.record {serial : Int} {id : Text} (seen : w.Seen j rows)
    (new : Text.itoa serial ∉ w.state.revoked.map (·.serial)) (log : w'.log = w.log ++ [.record i serial])
    (revoked : w'.state.revoked = w.state.revoked ++ [⟨Text.itoa serial, id, now⟩]) : w'.Seen j rows := by
  obtain ⟨listed, later, split, same, unread⟩ := seen
  have more : since w'.log j = since w.log j ++ [serial] := by
    rw [log, Publish.since_concat listed]
    rfl
  refine ⟨?_, later ++ [⟨Text.itoa serial, id, now⟩], ?_, ?_, fun n member => ?_⟩
  · rw [log]
    exact List.mem_append_left _ listed
  · rw [revoked, split, List.append_assoc]
  · rw [more, List.map_append, List.map_append, same]
    rfl
  · rw [more, List.mem_append, List.mem_singleton] at member
    rcases member with old | rfl
    · exact unread n old
    · rw [split, List.map_append, List.mem_append, not_or] at new
      exact new.1

theorem Seen.list (revoked : w'.state.revoked = w.state.revoked) (log : w'.log = w.log ++ [.list i])
    (unlisted : ¬ Publish.Listed w.log i) : w'.Seen i w.state.revoked := by
  have none : since w'.log i = [] := by
    rw [log, Publish.since_list unlisted]
  refine ⟨?_, [], revoked.trans (List.append_nil _).symm, ?_, ?_⟩
  · rw [log]
    exact List.mem_append_right _ (List.mem_singleton_self _)
  · rw [none]
    rfl
  · rw [none]
    exact nofun

end

/-- What the calls under way have read, and what the last one has written. -/
structure Reads (w : Race) : Prop where
  read : ∀ i, Publish.Listed w.log i → (w.stages i).phase ≠ .early ∧ (w.stages i).phase ≠ .owing
  seen : ∀ i rows, (w.stages i).rows = some rows → w.Seen i rows
  last : ∀ i, (publishers w.log).getLast? = some i →
    ∃ ca rows n, w.state.crl = some ⟨ca, crlEntries rows, n⟩ ∧ w.Seen i rows

/-- A step after which every call that has read still has, with the same list on the host. -/
theorem Reads.pass (inv : Reads w) (stages : w'.stages = Function.update w.stages i stage)
    (listed : ∀ j, Publish.Listed w'.log j → Publish.Listed w.log j ∨ j = i)
    (read : Publish.Listed w'.log i → stage.phase ≠ .early ∧ stage.phase ≠ .owing)
    (keeps : ∀ j rows, w.Seen j rows → w'.Seen j rows) (here : ∀ rows, stage.rows = some rows → w'.Seen i rows)
    (last : ∀ j, (publishers w'.log).getLast? = some j → (publishers w.log).getLast? = some j ∧ w'.state.crl = w.state.crl ∨
      ∃ ca rows n, w'.state.crl = some ⟨ca, crlEntries rows, n⟩ ∧ w'.Seen j rows) : Reads w' := by
  refine ⟨fun j there => ?_, fun j rows at' => ?_, fun j own => ?_⟩
  · rw [stages]
    by_cases own : j = i
    · rw [own, Function.update_self]
      exact read (own ▸ there)
    · rw [Function.update_of_ne own]
      exact inv.read j ((listed j there).resolve_right own)
  · rw [stages] at at'
    by_cases own : j = i
    · rw [own, Function.update_self] at at'
      rw [own]
      exact here rows at'
    · rw [Function.update_of_ne own] at at'
      exact keeps j rows (inv.seen j rows at')
  · rcases last j own with ⟨old, crl⟩ | new
    · obtain ⟨ca, rows, n, same, seen⟩ := inv.last j old
      exact ⟨ca, rows, n, crl.trans same, keeps j rows seen⟩
    · exact new

theorem listed_concat (a : Act Nat Int) {log : List (Act Nat Int)} {j : Nat} (other : a ≠ .list j)
    (listed : Publish.Listed (log ++ [a]) j) : Publish.Listed log j :=
  (List.mem_append.mp listed).resolve_right fun last => other (List.mem_singleton.mp last).symm

theorem Reads.moves (inv : Reads w) (moves : Moves calls w i now w') : Reads w' := by
  have silent : ∀ {a : Act Nat Int} {j : Nat}, publishers [a] = [] → (publishers (w.log ++ [a])).getLast? = some j →
      (publishers w.log).getLast? = some j := by
    intro a j none last
    rwa [Publish.publishers_concat, none, List.append_nil] at last
  cases moves with
  | stays => exact inv
  | @quiet w' stage quiet =>
    refine inv.pass quiet.stages (fun j listed => .inl (quiet.log ▸ listed)) (fun listed => ?_)
      (fun j rows seen => seen.quiet quiet.log quiet.revoked) (fun rows at' => ?_)
      fun j last => .inl ⟨quiet.log ▸ last, quiet.crl⟩
    · have old := inv.read i (quiet.log ▸ listed)
      rcases quiet.passes.forward with same | ⟨early, _⟩
      · rw [same]
        exact old
      · exact absurd early old.1
    · cases quiet.passes.idle.2.symm.trans at'
  | @record id serial here new =>
    have phase : (w.stages i).phase = .early := congrArg Stage.phase here
    refine inv.pass rfl (fun j listed => .inl (listed_concat (.record i serial) nofun listed)) (fun listed => ?_)
      (fun j rows seen => seen.record new rfl rfl) nofun fun j last => .inl ⟨silent rfl last, rfl⟩
    exact absurd phase (inv.read i (listed_concat (.record i serial) nofun listed)).1
  | list here =>
    have unlisted : ¬ Publish.Listed w.log i := fun listed => (inv.read i listed).2 (congrArg Stage.phase here)
    refine inv.pass rfl (fun j listed => ?_) (fun _ => ⟨nofun, nofun⟩) (fun j rows seen => seen.act rfl rfl rfl)
      (fun rows at' => ?_) fun j last => .inl ⟨silent rfl last, rfl⟩
    · by_cases own : j = i
      · exact .inr own
      · exact .inl (listed_concat (.list i) (fun same => own (Act.list.inj same).symm) listed)
    · cases at'
      exact Seen.list rfl rfl unlisted
  | draw here =>
    refine inv.pass rfl (fun j listed => .inl (listed_concat (.draw i) nofun listed)) (fun _ => ⟨nofun, nofun⟩)
      (fun j rows seen => seen.act rfl rfl rfl) (fun rows at' => ?_) fun j last => .inl ⟨silent rfl last, rfl⟩
    cases at'
    exact (inv.seen i _ (congrArg Stage.rows here)).act rfl rfl rfl
  | @publish peer ca rows n stage holder here finished =>
    have seen : w.Seen i rows := inv.seen i rows (congrArg Stage.rows here)
    refine inv.pass rfl (fun j listed => .inl (listed_concat (.publish i) nofun listed))
      (fun _ => by rw [finished]; exact ⟨nofun, nofun⟩) (fun j rows seen => seen.act rfl rfl rfl) (fun rows' at' => ?_)
      fun j last => .inr ⟨ca, rows, n, rfl, ?_⟩
    · cases (Stage.rows_of_done finished).symm.trans at'
    · replace last : (publishers (w.log ++ [.publish i])).getLast? = some j := last
      rw [Publish.publishers_concat, show publishers [(Act.publish i : Act Nat Int)] = [i] from rfl, List.getLast?_concat] at last
      obtain rfl : i = j := Option.some.inj last
      exact seen.act rfl rfl rfl

/-- The revocation list changes only by a call that writes it, and a call that
begins to change anything does. -/
structure Committed (calls : Nat → Call) (s : State) (w : Race) : Prop where
  crl : publishers w.log = [] → w.state.crl = s.crl
  revoked : (∀ i n, Act.record i n ∉ w.log) → w.state.revoked = s.revoked
  recorder : ∀ i n, Act.record i n ∈ w.log → w.Owes i
  rebuilder : ∀ i, calls i = .rebuildCRL → w.stages i = .waiting ∨ w.Owes i

/-- A call that owes its list still does after the step of another one, or of its own
before it writes. -/
theorem Owes.pass {j : Nat} (owes : w.Owes j) (stages : w'.stages = Function.update w.stages i stage)
    (published : publishers w.log ⊆ publishers w'.log)
    (own : (w.stages i).phase = .owing ∨ (w.stages i).phase = .listed ∨ (w.stages i).phase = .numbered →
      w'.Owes i) : w'.Owes j := by
  rcases owes with before | after
  · by_cases same : j = i
    · exact same ▸ own (same ▸ before)
    · refine .inl ?_
      rw [stages, Function.update_of_ne same]
      exact before
  · exact .inr (published after)

theorem Committed.pass {s : State} (inv : Committed calls s w) (stages : w'.stages = Function.update w.stages i stage)
    (published : publishers w.log ⊆ publishers w'.log)
    (own : (w.stages i).phase = .owing ∨ (w.stages i).phase = .listed ∨ (w.stages i).phase = .numbered → w'.Owes i)
    (crl : publishers w'.log = [] → w'.state.crl = w.state.crl)
    (records : ∀ j n, Act.record j n ∈ w'.log → Act.record j n ∈ w.log ∨ j = i ∧ w'.Owes i)
    (revoked : (∀ j n, Act.record j n ∉ w'.log) → w'.state.revoked = w.state.revoked ∧ ∀ j n, Act.record j n ∉ w.log)
    (rebuild : calls i = .rebuildCRL → w.stages i = .waiting → w'.Owes i) : Committed calls s w' := by
  refine ⟨fun none => ?_, fun none => ?_, fun j n member => ?_, fun j call => ?_⟩
  · have before : publishers w.log = [] := List.subset_nil.mp (none ▸ published)
    exact (crl none).trans (inv.crl before)
  · obtain ⟨same, before⟩ := revoked none
    exact same.trans (inv.revoked before)
  · rcases records j n member with old | ⟨rfl, owes⟩
    · exact (inv.recorder j n old).pass stages published own
    · exact owes
  · rcases inv.rebuilder j call with waiting | owes
    · by_cases same : j = i
      · exact .inr (same ▸ rebuild (same ▸ call) (same ▸ waiting))
      · refine .inl ?_
        rw [stages, Function.update_of_ne same]
        exact waiting
    · exact .inr (owes.pass stages published own)

theorem publishers_subset (a : Act Nat Int) : publishers w.log ⊆ publishers (w.log ++ [a]) := by
  rw [Publish.publishers_concat]
  exact List.subset_append_left _ _

/-- A step after which the call owes its list or has written it, and that records nothing. -/
theorem Committed.act {s : State} {a : Act Nat Int} (inv : Committed calls s w) (log : w'.log = w.log ++ [a])
    (other : ∀ j n, a ≠ .record j n) (stages : w'.stages = Function.update w.stages i stage) (owes : w'.Owes i)
    (crl : publishers w'.log = [] → w'.state.crl = w.state.crl) (revoked : w'.state.revoked = w.state.revoked) :
    Committed calls s w' := by
  refine inv.pass stages (log ▸ publishers_subset a) (fun _ => owes) crl (fun j n member => .inl ?_)
    (fun none => ⟨revoked, fun j n member => none j n (log ▸ List.mem_append_left _ member)⟩) fun _ _ => owes
  rw [log] at member
  exact (List.mem_append.mp member).resolve_right fun last => other j n (List.mem_singleton.mp last).symm

theorem owes_of_stage (stages : w'.stages = Function.update w.stages i stage)
    (phase : stage.phase = .owing ∨ stage.phase = .listed ∨ stage.phase = .numbered) : w'.Owes i := by
  refine .inl ?_
  rw [stages, Function.update_self]
  exact phase

theorem Committed.moves {s : State} (inv : Committed calls s w) (moves : Moves calls w i now w') : Committed calls s w' := by
  cases moves with
  | stays => exact inv
  | @quiet w' stage quiet =>
    have owing : stage.phase = .owing → w'.Owes i := fun phase => owes_of_stage quiet.stages (.inl phase)
    refine inv.pass quiet.stages (by rw [quiet.log]; exact List.Subset.refl _) (fun owes => owing ?_) (fun _ => quiet.crl)
      (fun j n member => .inl (quiet.log ▸ member)) (fun none => ⟨quiet.revoked, fun j n => quiet.log ▸ none j n⟩)
      (fun call waiting => owing (quiet.passes.rebuild call waiting))
    have phase : (w.stages i).phase = .owing := by
      rcases owes with phase | phase | phase
      · exact phase
      · exact absurd phase (Stage.phase_ne_listed quiet.passes.idle.1)
      · exact absurd phase (Stage.phase_ne_numbered quiet.passes.idle.1)
    rcases quiet.passes.forward with same | ⟨early, _⟩
    · exact same.trans phase
    · cases early.symm.trans phase
  | @record id serial here new =>
    have owes : ((w.onState { w.state with revoked := w.state.revoked ++ [⟨Text.itoa serial, id, now⟩] }
      [.record i serial]).goto i (.authority (some id))).Owes i := owes_of_stage rfl (.inl rfl)
    refine inv.pass rfl (publishers_subset _) (fun _ => owes) (fun _ => rfl) (fun j n member => ?_) (fun none => ?_)
      (fun _ _ => owes)
    · rcases List.mem_append.mp member with before | last
      · exact .inl before
      · exact .inr ⟨(Act.record.inj (List.mem_singleton.mp last)).1, owes⟩
    · exact absurd (List.mem_append_right _ (List.mem_singleton_self _)) (none i serial)
  | list here => exact inv.act rfl nofun rfl (owes_of_stage rfl (.inr (.inl rfl))) (fun _ => rfl) rfl
  | draw here => exact inv.act rfl nofun rfl (owes_of_stage rfl (.inr (.inr rfl))) (fun _ => rfl) rfl
  | publish here finished =>
    have member : i ∈ publishers (w.log ++ [(Act.publish i : Act Nat Int)]) := by
      rw [Publish.publishers_concat]
      exact List.mem_append_right _ (List.mem_singleton_self i)
    exact inv.act rfl nofun rfl (.inr member) (fun none => absurd member (List.eq_nil_iff_forall_not_mem.mp none i)) rfl

end

end Race

/-- A provider with its authority in memory, as an import leaves it, and rows whose
serials are written by `String`. -/
structure Ready (s : State) : Prop where
  memory : s.ca.isSome = true
  decimal : ∀ r ∈ s.revoked, ∃ n, r.serial = Text.itoa n

namespace Race

section
variable {crypto : Crypto} {kind : Kind} {calls : Nat → Call} {s : State} {w w' : Race} {i now : Nat}

theorem Moves.ready (ready : Ready w.state) (moves : Moves calls w i now w') : Ready w'.state := by
  cases moves with
  | quiet quiet => exact ⟨quiet.ca ▸ ready.memory, quiet.revoked ▸ ready.decimal⟩
  | @record id serial here new =>
    refine ⟨ready.memory, fun r member => ?_⟩
    rcases List.mem_append.mp member with before | last
    · exact ready.decimal r before
    · exact ⟨serial, congrArg RevokedCertRow.serial (List.mem_singleton.mp last)⟩
  | _ => exact ⟨ready.memory, ready.decimal⟩

theorem Moves.stages_of_ne {j : Nat} (moves : Moves calls w i now w') (other : j ≠ i) : w'.stages j = w.stages j := by
  cases moves with
  | stays => rfl
  | quiet quiet => rw [quiet.stages, Function.update_of_ne other]
  | _ => exact Function.update_of_ne other _ _

/-- All that holds along a run. -/
structure Traced (calls : Nat → Call) (s : State) (turns : List (Nat × Nat)) (w : Race) : Prop where
  ready : Ready w.state
  numbered : Numbered (s.crlNumber.getD 0) w
  reads : Reads w
  committed : Committed calls s w
  waiting : ∀ j, (∀ t ∈ turns, t.1 ≠ j) → w.stages j = .waiting

theorem traced_start (ready : Ready s) : Traced calls s [] (start s) where
  ready := ready
  numbered := ⟨fun _ => ⟨nofun, fun h => h.elim nofun nofun⟩, nofun, .nil, .nil, rfl, rfl, nofun⟩
  reads := ⟨nofun, nofun, nofun⟩
  committed := ⟨fun _ => rfl, fun _ => rfl, nofun, fun _ _ => .inl rfl⟩
  waiting := fun _ _ => rfl

theorem Traced.step {turns : List (Nat × Nat)} (traced : Traced calls s turns w) (turn : Nat × Nat) :
    Traced calls s (turns ++ [turn]) (step crypto kind calls w turn) := by
  have moves : Moves calls w turn.1 turn.2 (Race.step crypto kind calls w turn) := step_moves traced.ready.memory
  refine ⟨moves.ready traced.ready, traced.numbered.moves moves, traced.reads.moves moves, traced.committed.moves moves,
    fun j never => ?_⟩
  rw [moves.stages_of_ne (never turn (by simp)).symm]
  exact traced.waiting j fun t member => never t (List.mem_append_left _ member)

theorem traced_run (crypto : Crypto) (kind : Kind) (calls : Nat → Call) (ready : Ready s) (turns : List (Nat × Nat)) :
    Traced calls s turns (run crypto kind calls s turns) := by
  unfold run
  induction turns using List.reverseRecOn with
  | nil => exact traced_start ready
  | append_singleton turns turn ih =>
    rw [Run.after_concat]
    exact ih.step turn

/-- The list that was written last is complete exactly if nothing has been
recorded since it was read. -/
theorem full_iff {rows : List RevokedCertRow} {n : Nat} (ready : Ready w.state) (seen : w.Seen i rows)
    (crl : w.state.crl = some ⟨ca, crlEntries rows, n⟩) : Full w.state ↔ since w.log i = [] := by
  obtain ⟨_, later, split, same, unread⟩ := seen
  constructor
  · intro full
    refine List.eq_nil_iff_forall_not_mem.mpr fun m member => ?_
    have recorded : Recorded w.state m := by
      rw [Recorded, split, List.map_append, same]
      exact List.mem_append_right _ (List.mem_map_of_mem member)
    obtain ⟨crl', there, listed⟩ := full m recorded
    cases crl.symm.trans there
    obtain ⟨entry, inEntries, rfl⟩ := List.mem_map.mp listed
    obtain ⟨r, inRows, made⟩ := List.mem_filterMap.mp inEntries
    obtain ⟨k, read, rfl⟩ := Option.map_eq_some_iff.mp made
    obtain ⟨k', text⟩ := ready.decimal r (split ▸ List.mem_append_left _ inRows)
    rw [text, Text.readSigned_itoa] at read
    cases read
    exact unread k member (List.mem_map.mpr ⟨r, inRows, text⟩)
  · intro none m recorded
    rw [none, List.map_nil, List.map_eq_nil_iff] at same
    rw [Recorded, split, same, List.append_nil] at recorded
    exact ⟨_, crl, crlEntries_complete recorded⟩

end

end Race

section
variable {crypto : Crypto} {kind : Kind} {calls : Nat → Call} {s : State} {w : Race} {turns : List (Nat × Nat)}

/-- Once all calls have returned, those that owed a list have written it. -/
theorem Race.Traced.settled (traced : w.Traced calls s turns) (all : ∀ t ∈ turns, w.stages t.1 = .returned) (i : Nat) :
    (w.stages i = .waiting ∨ w.stages i = .returned) ∧ (w.Owes i → i ∈ publishers w.log) := by
  have finished : w.stages i = .waiting ∨ w.stages i = .returned := by
    by_cases scheduled : ∃ t ∈ turns, t.1 = i
    · obtain ⟨t, member, rfl⟩ := scheduled
      exact .inr (all t member)
    · exact .inl (traced.waiting i fun t member own => scheduled ⟨t, member, own⟩)
  refine ⟨finished, fun owes => owes.resolve_left fun before => ?_⟩
  rcases finished with here | here <;> rw [here] at before <;> exact before.elim nofun (·.elim nofun nofun)

theorem Race.Traced.full_iff_fresh (traced : w.Traced calls s turns)
    (begun : Full s ∨ ∃ t ∈ turns, calls t.1 = .rebuildCRL) (all : ∀ t ∈ turns, w.stages t.1 = .returned) :
    Full w.state ↔ Fresh w.log := by
  cases last : (publishers w.log).getLast? with
  | none =>
    -- nobody has written, so nobody has recorded anything or was to rebuild the list
    have none : publishers w.log = [] := List.getLast?_eq_none_iff.mp last
    have never : ∀ i, ¬ w.Owes i := fun i owes => by
      have member := (traced.settled all i).2 owes
      rw [none] at member
      cases member
    have crl := traced.committed.crl none
    have revoked := traced.committed.revoked fun i n member => never i (traced.committed.recorder i n member)
    have full : Full s := begun.resolve_right fun ⟨t, member, call⟩ => by
      rcases traced.committed.rebuilder t.1 call with waiting | owes
      · cases waiting.symm.trans (all t member)
      · exact never _ owes
    refine iff_of_true (fun n recorded => ?_) (fun i found => by rw [none] at found; cases found)
    unfold Listed
    rw [Recorded, revoked] at recorded
    rw [crl]
    exact full n recorded
  | some i =>
    obtain ⟨ca, rows, n, crl, seen⟩ := traced.reads.last i last
    rw [Race.full_iff traced.ready seen crl]
    constructor
    · intro none j found
      cases last.symm.trans found
      exact none
    · exact fun fresh => fresh i last

theorem Race.Traced.increasing_iff_inOrder (traced : w.Traced calls s turns)
    (all : ∀ t ∈ turns, w.stages t.1 = .returned) : w.written.Pairwise (· < ·) ↔ InOrder w.log := by
  have perm : (publishers w.log).Perm (drawers w.log) := by
    refine (List.perm_ext_iff_of_nodup traced.numbered.wroteOnce traced.numbered.drewOnce).mpr fun i => ?_
    rw [traced.numbered.drew]
    refine ⟨.inr, fun drawn => drawn.resolve_left fun numbered => ?_⟩
    rcases (traced.settled all i).1 with here | here <;> rw [here] at numbered <;> cases numbered
  rw [traced.numbered.written]
  exact Publish.increasing_iff perm traced.numbered.drewOnce _

end

/-- After any interleaving of the calls, the host's list has every recorded
revocation and the lists came with increasing numbers exactly if nothing was
recorded after the call that wrote last had read the rows, and the calls wrote
in the order in which they drew their numbers. -/
theorem rebuilds_keep_revocations_iff (crypto : Crypto) (kind : Kind) (calls : Nat → Call) {s : State} (ready : Ready s)
    (turns : List (Nat × Nat)) (begun : Full s ∨ ∃ t ∈ turns, calls t.1 = .rebuildCRL)
    (all : ∀ t ∈ turns, (Race.run crypto kind calls s turns).stages t.1 = .returned) :
    Full (Race.run crypto kind calls s turns).state ∧ (Race.run crypto kind calls s turns).written.Pairwise (· < ·) ↔
      Fresh (Race.run crypto kind calls s turns).log ∧ InOrder (Race.run crypto kind calls s turns).log := by
  have traced := Race.traced_run crypto kind calls ready turns
  exact and_congr (traced.full_iff_fresh begun all) (traced.increasing_iff_inOrder all)

/-- A provider after an import, with one client. -/
def importedState : State :=
  { State.initial with
    ca := some ⟨"ca0".toList, "key0".toList⟩
    clients := KeyTable.empty.upsert "bob".toList ⟨"7:bob".toList, "|key7".toList⟩ }

def importAndRemoval (i : Nat) : Call := if i = 0 then .rebuildCRL else .removePeer "bob".toList

theorem importedState_ready : Ready importedState := ⟨rfl, nofun⟩

/-- One after the other. -/
theorem rebuilds_keep_revocations_iff_sample :
    let w := Race.run sampleCrypto .openvpn importAndRemoval importedState
      (List.replicate 5 (0, 0) ++ List.replicate 9 (1, 0))
    Full w.state ∧ w.written.Pairwise (· < ·) := by
  intro w
  have run : (∀ t ∈ List.replicate 5 (0, 0) ++ List.replicate 9 (1, 0), w.stages t.1 = .returned) ∧
      Fresh w.log ∧ InOrder w.log := by decide +kernel
  exact (rebuilds_keep_revocations_iff sampleCrypto .openvpn importAndRemoval importedState_ready _
    (.inr ⟨(0, 0), by decide, rfl⟩) run.1).mpr run.2

/-- The import reads the rows, the peer is removed, and the import writes what it
has read; or it draws its number as well before the removal. -/
theorem rebuild_overwrites_removal :
    let late := List.replicate 3 (0, 0) ++ List.replicate 9 (1, 0) ++ List.replicate 2 (0, 0)
    let w := Race.run sampleCrypto .openvpn importAndRemoval importedState late
    let later := List.replicate 4 (0, 0) ++ List.replicate 9 (1, 0) ++ [(0, 0)]
    let w' := Race.run sampleCrypto .openvpn importAndRemoval importedState later
    Ready importedState ∧ Full importedState ∧
      ((∀ t ∈ late, w.stages t.1 = .returned) ∧ Recorded w.state 7 ∧ ¬ Full w.state ∧ w.written = [1, 2]) ∧
      (∀ t ∈ later, w'.stages t.1 = .returned) ∧ ¬ Full w'.state ∧ w'.written = [2, 1] := by
  intro late w later w'
  have run : (∀ t ∈ late, w.stages t.1 = .returned) ∧
      (Text.itoa 7 ∈ w.state.revoked.map (·.serial) ∧ w.state.crl.map (·.entries) = some []) ∧ w.written = [1, 2] := by
    decide +kernel
  have run' : (∀ t ∈ later, w'.stages t.1 = .returned) ∧
      (Text.itoa 7 ∈ w'.state.revoked.map (·.serial) ∧ w'.state.crl.map (·.entries) = some []) ∧ w'.written = [2, 1] := by
    decide +kernel
  have missing : ∀ s : State, Recorded s 7 → s.crl.map (·.entries) = some [] → ¬ Full s := by
    intro s recorded empty full
    obtain ⟨crl, there, listed⟩ := full 7 recorded
    rw [there] at empty
    have none : crl.entries = [] := Option.some.inj empty
    rw [none] at listed
    cases listed
  exact ⟨importedState_ready, nofun, ⟨run.1, run.2.1.1, missing _ run.2.1.1 run.2.1.2, run.2.2⟩, run'.1,
    missing _ run'.2.1.1 run'.2.1.2, run'.2.2⟩

end Protean.Cert
