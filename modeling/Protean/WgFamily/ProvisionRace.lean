import Protean.WgFamily.Provision

namespace Protean.WgFamily

open Inet Vpn

/-- What a call does next, with what it has found so far. -/
inductive Stage
  | status
  | list (cidr : Text)
  | settings (cidr : Text) (peers : List PeerRoutes)
  | add (cidr : Text) (peers : List PeerRoutes) (range : Text × Text) (free : Text)
  | secret (free priv pub : Text)
  | remove (pub : Text)
  | done (new : NewPeer)
  | failed
  deriving DecidableEq, Repr

structure Call where
  env : ProvisionEnv
  name : Text

/-- The instance and the calls under way. `created` records the address of the peer that
a call has added, until the call takes the peer out again. -/
structure Calls where
  panel : Panel
  stages : Nat → Stage
  created : Nat → Option Text

namespace Calls

def start (p : Panel) : Calls := ⟨p, fun _ => .status, fun _ => none⟩

def goto (s : Calls) (i : Nat) (stage : Stage) : Calls := { s with stages := Function.update s.stages i stage }

def onHost (s : Calls) (h : Host) : Calls := { s with panel := { s.panel with host := h } }

def record (s : Calls) (i : Nat) (free : Option Text) : Calls := { s with created := Function.update s.created i free }

/-- The next step of a call: each of the provider's methods is one. -/
def step (calls : Nat → Call) (s : Calls) (i : Nat) : Calls :=
  let env := (calls i).env
  match s.stages i with
  | .status =>
    match ((WgFamily.status env.status env.publicHost).exec s.panel.host).1 with
    | none => s.goto i .failed
    | some st => s.goto i (if firstCIDR st.address ≠ [] then .list (firstCIDR st.address) else .failed)
  | .list cidr =>
    match ((listPeers env.list).exec s.panel.host).1 with
    | none => s.goto i .failed
    | some peers => s.goto i (.settings cidr peers)
  | .settings cidr peers =>
    match env.range with
    | none => s.goto i .failed
    | some range =>
      match freeIP env.fuel cidr range peers with
      | none => s.goto i .failed
      | some free => s.goto i (.add cidr peers range free)
  | .add _ _ _ free =>
    match (addPeer env.add env.drawn ⟨(calls i).name, [free], 25, []⟩).exec s.panel.host with
    | (none, h) => (s.onHost h).goto i .failed
    | (some (priv, pub), h) =>
      ((s.onHost h).record i (some free)).goto i (if pub ≠ [] then .secret free priv pub else .failed)
  | .secret free priv pub =>
    match env.secret.stored priv with
    | none => s.goto i (.remove pub)
    | some blob =>
      let tables := { s.panel.tables with secrets := s.panel.tables.secrets.upsert pub blob }
      ({ s with panel := { s.panel with tables := tables } }).goto i (.done ⟨encodePeerID pub, pub, priv, [free]⟩)
  | .remove pub =>
    match (removePeer env.secret.remove pub).exec s.panel.host with
    | (none, h) => (s.onHost h).goto i .failed
    | (some _, h) => ((s.onHost h).record i none).goto i .failed
  | .done _ => s
  | .failed => s

/-- No two calls have an address in common. -/
def Different (created : Nat → Option Text) : Prop :=
  ∀ i j t u v, i ≠ j → created i = some t → created j = some u → ownValue [t] = some v → ownValue [u] ≠ some v

/-- The peers that calls have added have different addresses. -/
def Distinct (s : Calls) : Prop := Different s.created

/-- When a call adds its peer, by what it has read none of the other calls' peers has the
address that was to be given out. -/
def Safe (s : Calls) (i : Nat) : Prop :=
  ∀ cidr peers range free, s.stages i = .add cidr peers range free →
    ∀ j t ip ipnet b own, j ≠ i → s.created j = some t → parseCIDR cidr = some (ip, ipnet) →
      parseCIDR t = some (b, own) → Passed ipnet range.1 range.2 (usedAddrs cidr peers) b

/-- The addresses come from the search. -/
structure Searched (calls : Nat → Call) (s : Calls) : Prop where
  found : ∀ i cidr peers range free, s.stages i = .add cidr peers range free →
    freeIP (calls i).env.fuel cidr range peers = some free
  host : ∀ i t, s.created i = some t → ∃ a : Addr, t = a.hostText

theorem eq_some_of_update_none {created : Nat → Option Text} {i j : Nat} {t : Text}
    (here : Function.update created i none j = some t) : created j = some t := by
  by_cases own : j = i
  · rw [own, Function.update_self] at here
    cases here
  · rwa [Function.update_of_ne own] at here

section
variable {calls : Nat → Call} {s : Calls} {i : Nat}

/-- What one step can do: it moves its own call on, to the next address only by a search,
and adds a peer only with that address. -/
theorem step_cases (calls : Nat → Call) (s : Calls) (i : Nat) :
    ∃ stage, (step calls s i).stages = Function.update s.stages i stage ∧
      (∀ cidr peers range free, stage = .add cidr peers range free →
        freeIP (calls i).env.fuel cidr range peers = some free) ∧
      ((step calls s i).created = s.created ∨ (step calls s i).created = Function.update s.created i none ∨
        ∃ cidr peers range free, s.stages i = .add cidr peers range free ∧
          (step calls s i).created = Function.update s.created i (some free)) := by
  unfold step
  cases here : s.stages i with
  | status =>
    dsimp only
    split
    · exact ⟨.failed, rfl, nofun, .inl rfl⟩
    · refine ⟨_, rfl, ?_, .inl rfl⟩
      split <;> exact nofun
  | list cidr =>
    dsimp only
    split
    · exact ⟨.failed, rfl, nofun, .inl rfl⟩
    · exact ⟨.settings cidr _, rfl, nofun, .inl rfl⟩
  | settings cidr peers =>
    dsimp only
    split
    · exact ⟨.failed, rfl, nofun, .inl rfl⟩
    · split
      · exact ⟨.failed, rfl, nofun, .inl rfl⟩
      · rename_i range _ _ free found
        refine ⟨.add cidr peers range free, rfl, fun _ _ _ _ same => ?_, .inl rfl⟩
        cases same
        exact found
  | add cidr peers range free =>
    dsimp only
    split
    · exact ⟨.failed, rfl, nofun, .inl rfl⟩
    · refine ⟨_, rfl, ?_, .inr (.inr ⟨cidr, peers, range, free, rfl, rfl⟩)⟩
      split <;> exact nofun
  | secret free priv pub =>
    dsimp only
    split
    · exact ⟨.remove pub, rfl, nofun, .inl rfl⟩
    · exact ⟨.done _, rfl, nofun, .inl rfl⟩
  | remove pub =>
    dsimp only
    split
    · exact ⟨.failed, rfl, nofun, .inl rfl⟩
    · exact ⟨.failed, rfl, nofun, .inr (.inl rfl)⟩
  | done new =>
    have same : Function.update s.stages i (.done new) = s.stages := by rw [← here, Function.update_eq_self]
    exact ⟨.done new, same.symm, nofun, .inl rfl⟩
  | failed =>
    have same : Function.update s.stages i .failed = s.stages := by rw [← here, Function.update_eq_self]
    exact ⟨.failed, same.symm, nofun, .inl rfl⟩

theorem searched_start (calls : Nat → Call) (p : Panel) : Searched calls (start p) := ⟨nofun, nofun⟩

theorem Searched.step (searched : Searched calls s) (i : Nat) : Searched calls (step calls s i) := by
  obtain ⟨stage, stages, found, created⟩ := step_cases calls s i
  refine ⟨fun j cidr peers range free here => ?_, fun j t here => ?_⟩
  · rw [stages] at here
    by_cases own : j = i
    · rw [own, Function.update_self] at here
      rw [own]
      exact found cidr peers range free here
    · rw [Function.update_of_ne own] at here
      exact searched.found j cidr peers range free here
  · rcases created with same | same | ⟨cidr, peers, range, free, adds, same⟩
    · rw [same] at here
      exact searched.host j t here
    · rw [same] at here
      exact searched.host j t (eq_some_of_update_none here)
    · rw [same] at here
      by_cases own : j = i
      · rw [own, Function.update_self] at here
        cases here
        obtain ⟨_, _, a, _, host, _⟩ := freeIP_chosen (searched.found i cidr peers range _ adds)
        exact ⟨a, host⟩
      · rw [Function.update_of_ne own] at here
        exact searched.host j t here

section
variable {created : Nat → Option Text} {i : Nat} {free : Text}

theorem Different.erase (different : Different created) : Different (Function.update created i none) := by
  intro j k t u v apart first second
  exact different j k t u v apart (eq_some_of_update_none first) (eq_some_of_update_none second)

/-- A peer may be added with an address that no other call's peer has. -/
theorem Different.add_iff (different : Different created) : Different (Function.update created i (some free)) ↔
    ∀ j t v, j ≠ i → created j = some t → ownValue [free] = some v → ownValue [t] ≠ some v := by
  constructor
  · intro all j t v other here value
    exact all i j free t v other.symm (Function.update_self ..) ((Function.update_of_ne other ..).trans here) value
  · intro new j k t u v apart first second value
    by_cases one : j = i
    · have two : k ≠ i := fun same => apart (one.trans same.symm)
      rw [one, Function.update_self] at first
      rw [Function.update_of_ne two] at second
      cases first
      exact new k u v two second value
    · rw [Function.update_of_ne one] at first
      by_cases two : k = i
      · rw [two, Function.update_self] at second
        cases second
        exact fun same => new j t v one first same value
      · rw [Function.update_of_ne two] at second
        exact different j k t u v apart first second value

end

theorem distinct_start (p : Panel) : (start p).Distinct := nofun

/-- Whether the address that a call has found is that of another call's peer. -/
theorem Searched.add_iff (searched : Searched calls s) (distinct : s.Distinct) {cidr : Text} {peers : List PeerRoutes}
    {range : Text × Text} {free : Text} (adds : s.stages i = .add cidr peers range free) :
    ∃ ip ipnet, parseCIDR cidr = some (ip, ipnet) ∧ (s.Safe i → Different (Function.update s.created i (some free))) ∧
      (1 ≤ ipnet.ones → Apart ipnet → Different (Function.update s.created i (some free)) → s.Safe i) := by
  obtain ⟨ip, ipnet, a, read, rfl, chosen⟩ := freeIP_chosen (searched.found i cidr peers range free adds)
  refine ⟨ip, ipnet, read, fun safe => (Different.add_iff distinct).mpr fun j t v other here value => ?_,
    fun long apart different => ?_⟩
  · obtain ⟨b, rfl⟩ := searched.host j t here
    have ne := chosen.ne_of_passed
      (safe cidr peers range _ adds j _ ip ipnet b.to4 _ other here read (parseCIDR_hostText b))
    rw [Addr.value_to4] at ne
    rw [ownValue_hostText] at value ⊢
    cases value
    exact fun same => ne (Option.some.inj same)
  · intro cidr' peers' range' free' adds' j t ip' ipnet' b own other here read' parsed
    rw [adds] at adds'
    cases adds'
    rw [read] at read'
    cases read'
    refine (chosen.passed_iff long apart).mpr fun same => ?_
    have ne := (Different.add_iff distinct).mp different j t a.value other here (ownValue_hostText a)
    obtain ⟨c, rfl⟩ := searched.host j t here
    rw [parseCIDR_hostText] at parsed
    cases parsed
    rw [Addr.value_to4] at same
    rw [ownValue_hostText, same] at ne
    exact ne rfl

theorem Distinct.step (distinct : s.Distinct) (searched : Searched calls s) (safe : s.Safe i) :
    (step calls s i).Distinct := by
  obtain ⟨stage, _, _, created⟩ := step_cases calls s i
  unfold Distinct
  rcases created with same | same | ⟨cidr, peers, range, free, adds, same⟩
  · rw [same]
    exact distinct
  · rw [same]
    exact Different.erase distinct
  · rw [same]
    obtain ⟨_, _, _, keeps, _⟩ := searched.add_iff distinct adds
    exact keeps safe

theorem created_add {cidr free : Text} {peers : List PeerRoutes} {range : Text × Text} {keys : Text × Text} {h : Host}
    (adds : s.stages i = .add cidr peers range free)
    (answers : (addPeer (calls i).env.add (calls i).env.drawn ⟨(calls i).name, [free], 25, []⟩).exec s.panel.host =
      (some keys, h)) : (step calls s i).created = Function.update s.created i (some free) := by
  unfold step
  rw [adds]
  dsimp only
  rw [answers]
  rfl

end

/-- What a call has still to do. -/
def rest (call : Call) : Stage → Proc Panel NewPeer
  | .status => autoProvisionPeer call.env call.name
  | .list cidr => do
    let peers ← WgFamily.onHost (listPeers call.env.list)
    let range ← Proc.lift call.env.range
    let free ← Proc.lift (freeIP call.env.fuel cidr range peers)
    addAssigned call.env call.name free
  | .settings cidr peers => do
    let range ← Proc.lift call.env.range
    let free ← Proc.lift (freeIP call.env.fuel cidr range peers)
    addAssigned call.env call.name free
  | .add _ _ _ free => addAssigned call.env call.name free
  | .secret free priv pub => do
    storeSecret call.env.secret priv pub
    return ⟨encodePeerID pub, pub, priv, [free]⟩
  | .remove pub => do
    let _ ← Proc.attempt (WgFamily.onHost (removePeer call.env.secret.remove pub))
    Proc.lift none
  | .done new => return new
  | .failed => Proc.lift none

/-- How many steps are left at most. -/
def left : Stage → Nat
  | .status => 6
  | .list _ => 5
  | .settings .. => 4
  | .add .. => 3
  | .secret .. => 2
  | .remove _ => 1
  | .done _ | .failed => 0

section
variable {calls : Nat → Call} {s : Calls} {i : Nat}

theorem stages_goto (stage : Stage) : (s.goto i stage).stages i = stage := Function.update_self ..

theorem rest_goto (stage : Stage) :
    (rest (calls i) ((s.goto i stage).stages i)).exec (s.goto i stage).panel = (rest (calls i) stage).exec s.panel := by
  rw [stages_goto]
  rfl

/-- A step does the next part of what the call has to do. -/
theorem rest_step (calls : Nat → Call) (s : Calls) (i : Nat) :
    (rest (calls i) ((step calls s i).stages i)).exec (step calls s i).panel =
      (rest (calls i) (s.stages i)).exec s.panel := by
  unfold step
  cases here : s.stages i with
  | status =>
    dsimp only
    have still : ((WgFamily.status (calls i).env.status (calls i).env.publicHost).exec s.panel.host).2 =
        s.panel.host := by
      rw [exec_status]
    rw [rest, autoProvisionPeer, Proc.exec_bind, WgFamily.onHost, Proc.exec_zoom, still]
    cases ((WgFamily.status (calls i).env.status (calls i).env.publicHost).exec s.panel.host).1 with
    | none => exact rest_goto _
    | some st =>
      refine (rest_goto _).trans ?_
      dsimp only
      rw [Proc.exec_guard_bind]
      by_cases addressed : firstCIDR st.address = [] <;> simp [addressed, rest]
  | list cidr =>
    dsimp only
    have still : ((listPeers (calls i).env.list).exec s.panel.host).2 = s.panel.host := by rw [exec_listPeers]
    rw [rest, Proc.exec_bind, WgFamily.onHost, Proc.exec_zoom, still]
    cases ((listPeers (calls i).env.list).exec s.panel.host).1 <;> exact rest_goto _
  | settings cidr peers =>
    dsimp only
    rw [rest, Proc.exec_lift_bind]
    cases (calls i).env.range with
    | none => exact rest_goto _
    | some range =>
      dsimp only
      rw [Proc.exec_lift_bind]
      cases freeIP (calls i).env.fuel cidr range peers <;> exact rest_goto _
  | add cidr peers range free =>
    dsimp only
    rw [rest, addAssigned, Proc.exec_bind, WgFamily.onHost, Proc.exec_zoom]
    rcases (addPeer (calls i).env.add (calls i).env.drawn ⟨(calls i).name, [free], 25, []⟩).exec s.panel.host with
      ⟨_ | keys, h⟩
    · exact rest_goto _
    · refine (rest_goto _).trans ?_
      dsimp only
      rw [Proc.exec_guard_bind]
      by_cases keyed : keys.2 = [] <;> simp [keyed, rest] <;> rfl
  | secret free priv pub =>
    dsimp only
    rw [rest, Proc.exec_bind, exec_storeSecret]
    cases (calls i).env.secret.stored priv <;> exact rest_goto _
  | remove pub =>
    dsimp only
    rw [rest, Proc.exec_bind, Proc.exec_attempt, WgFamily.onHost, Proc.exec_zoom]
    rcases (removePeer (calls i).env.secret.remove pub).exec s.panel.host with ⟨_ | _, h⟩ <;> exact rest_goto _
  | done new | failed =>
    dsimp only
    rw [here]

theorem left_step (calls : Nat → Call) (s : Calls) (i : Nat) :
    left ((step calls s i).stages i) ≤ left (s.stages i) - 1 := by
  unfold step
  cases here : s.stages i with
  | status | add cidr peers range free =>
    dsimp only
    split <;> rw [stages_goto]
    · simp [left]
    · split <;> simp [left]
  | list cidr | secret free priv pub | remove pub =>
    dsimp only
    split <;> rw [stages_goto] <;> simp [left]
  | settings cidr peers =>
    dsimp only
    split
    · rw [stages_goto]
      simp [left]
    · split <;> rw [stages_goto] <;> simp [left]
  | done new | failed =>
    dsimp only
    rw [here]
    simp [left]

/-- A call that comes in and is not interrupted is `autoProvisionPeer`. -/
theorem call_alone (calls : Nat → Call) (s : Calls) (i : Nat) :
    let s' := Run.after (step calls) (s.goto i .status) (List.replicate 6 i)
    s'.panel = ((autoProvisionPeer (calls i).env (calls i).name).exec s.panel).2 ∧
      s'.stages i = match ((autoProvisionPeer (calls i).env (calls i).name).exec s.panel).1 with
        | some new => .done new
        | none => .failed := by
  intro s'
  obtain ⟨fewer, same⟩ := Run.replicate (P := fun _ => True) (m := fun s => left (s.stages i))
    (f := fun s => (rest (calls i) (s.stages i)).exec s.panel)
    (fun s _ => ⟨trivial, left_step calls s i, rest_step calls s i⟩) (s := s.goto i .status) trivial 6
  rw [stages_goto] at same fewer
  rw [show (autoProvisionPeer (calls i).env (calls i).name).exec s.panel = _ from same.symm]
  have ended : left (s'.stages i) = 0 := Nat.le_zero.mp fewer
  cases stage : s'.stages i with
  | done new | failed => exact ⟨rfl, rfl⟩
  | _ => simp [stage, left] at ended

end

/-- Calls whose peers are added one after the other, each seen by the next, get different
addresses; and by what a call reads, nothing less will do. -/
theorem concurrent_addresses_distinct (calls : Nat → Call) (p : Panel) {schedule : List Nat}
    (safe : Run.Meets (step calls) Safe (start p) schedule) :
    (∀ first, first <+: schedule → (Run.after (step calls) (start p) first).Distinct) ∧
    ∀ (s : Calls) (i : Nat) (cidr : Text) (peers : List PeerRoutes) (range : Text × Text) (free : Text)
      (keys : Text × Text) (h : Host) (ip : Addr) (ipnet : IPNet), Searched calls s → s.Distinct →
      s.stages i = .add cidr peers range free →
      (addPeer (calls i).env.add (calls i).env.drawn ⟨(calls i).name, [free], 25, []⟩).exec s.panel.host =
        (some keys, h) →
      parseCIDR cidr = some (ip, ipnet) → 1 ≤ ipnet.ones → Apart ipnet → ((step calls s i).Distinct ↔ s.Safe i) := by
  constructor
  · rintro first ⟨rest, rfl⟩
    have keep : ∀ s i, Searched calls s ∧ s.Distinct → s.Safe i →
        Searched calls (step calls s i) ∧ (step calls s i).Distinct :=
      fun s i inv safe => ⟨inv.1.step i, inv.2.step inv.1 safe⟩
    exact ((Run.Meets.append.mp safe).1.invariant (fun s => Searched calls s ∧ s.Distinct) keep
      ⟨searched_start calls p, distinct_start p⟩).2
  · intro s i cidr peers range free keys h ip ipnet searched distinct adds answers read long apart
    obtain ⟨ip', ipnet', read', keeps, needs⟩ := searched.add_iff distinct adds
    rw [read] at read'
    cases read'
    rw [Distinct, created_add adds answers]
    exact ⟨needs long apart, keeps⟩

theorem created_step_of_ne (calls : Nat → Call) (s : Calls) {i j : Nat} (other : j ≠ i) :
    (step calls s i).created j = s.created j := by
  obtain ⟨_, _, _, same | same | ⟨_, _, _, _, _, same⟩⟩ := step_cases calls s i
  · rw [same]
  · rw [same, Function.update_of_ne other]
  · rw [same, Function.update_of_ne other]

/-- A call that has no other beside it meets the condition. -/
theorem meets_alone (calls : Nat → Call) {s : Calls} {i : Nat} (alone : ∀ j, j ≠ i → s.created j = none) (n : Nat) :
    Run.Meets (step calls) Safe s (List.replicate n i) := by
  induction n generalizing s with
  | zero => trivial
  | succ n ih =>
    refine ⟨?_, ih fun j other => (created_step_of_ne calls s other).trans (alone j other)⟩
    intro cidr peers range free _ j t ip ipnet b own other here
    rw [alone j other] at here
    cases here

def twoCalls (i : Nat) : Call := ⟨{ fuel := 8, drawn := some ([1], [UInt8.ofNat i]) }, "b".toList⟩

def emptyPanel : Panel := ⟨⟨"[Interface]\nAddress = 10.8.0.1/24\n".toList, [], 0, KeyTable.empty⟩, {}⟩

/-- The first call has run when the second one starts. -/
def firstDone : Calls := Run.after (step twoCalls) (start emptyPanel) (List.replicate 5 0)

def secondLists : Calls := step twoCalls firstDone 1

def secondSearches : Calls := step twoCalls secondLists 1

def secondAdds : Calls := step twoCalls secondSearches 1

theorem secondCall_stages :
    firstDone.stages 1 = .status ∧ secondLists.stages 1 = .list "10.8.0.1/24".toList ∧
    secondSearches.stages 1 = .settings "10.8.0.1/24".toList [⟨"AA==".toList, ["10.8.0.2/32".toList]⟩] ∧
    secondAdds.stages 1 =
      .add "10.8.0.1/24".toList [⟨"AA==".toList, ["10.8.0.2/32".toList]⟩] ([], []) "10.8.0.3/32".toList ∧
    secondAdds.created 0 = some "10.8.0.2/32".toList ∧
    (step twoCalls secondAdds 1).created 1 = some "10.8.0.3/32".toList := by
  decide +kernel

theorem secondAdds_created {j : Nat} (zero : j ≠ 0) (one : j ≠ 1) : secondAdds.created j = none := by
  rw [secondAdds, created_step_of_ne _ _ one, secondSearches, created_step_of_ne _ _ one, secondLists,
    created_step_of_ne _ _ one, firstDone]
  have idle : ∀ n, (Run.after (step twoCalls) (start emptyPanel) (List.replicate n 0)).created j = none := by
    intro n
    induction n with
    | zero => rfl
    | succ n ih => rw [List.replicate_succ', Run.after_concat, created_step_of_ne _ _ zero, ih]
  exact idle 5

theorem concurrent_addresses_distinct_sample :
    (step twoCalls secondAdds 1).created 1 = some "10.8.0.3/32".toList ∧ (step twoCalls secondAdds 1).Distinct := by
  obtain ⟨one, two, three, adds, added, ends⟩ := secondCall_stages
  have early : ∀ {s : Calls} {stage : Stage}, s.stages 1 = stage →
      (∀ cidr peers range free, stage ≠ .add cidr peers range free) → s.Safe 1 := by
    intro s stage here other cidr peers range free adds
    exact absurd (here.symm.trans adds) (other cidr peers range free)
  have last : secondAdds.Safe 1 := by
    intro cidr peers range free here j t ip ipnet b net other created read parsed
    rw [adds] at here
    cases here
    by_cases zero : j = 0
    · have own : parseCIDR "10.8.0.2/32".toList = some (.v4 0x0a080002#32, ⟨.v4 0x0a080002#32, 32⟩) := by decide +kernel
      rw [zero, added] at created
      cases created
      rw [own] at parsed
      cases parsed
      exact .inr (.inr (.inl ⟨.v4 0x0a080002#32, by decide +kernel, rfl⟩))
    · rw [secondAdds_created zero other] at created
      cases created
  have safe : Run.Meets (step twoCalls) Safe (start emptyPanel) (List.replicate 5 0 ++ [1, 1, 1, 1]) := by
    refine Run.Meets.append.mpr ⟨meets_alone twoCalls (fun _ _ => rfl) 5, ?_⟩
    rw [← firstDone]
    refine ⟨early one nofun, ?_⟩
    rw [← secondLists]
    refine ⟨early two nofun, ?_⟩
    rw [← secondSearches]
    refine ⟨early three nofun, ?_⟩
    rw [← secondAdds]
    exact ⟨last, trivial⟩
  have distinct := (concurrent_addresses_distinct twoCalls emptyPanel safe).1 _ (List.prefix_refl _)
  rw [Run.after_append, ← firstDone, Run.after_cons, ← secondLists, Run.after_cons, ← secondSearches, Run.after_cons,
    ← secondAdds, Run.after_cons, Run.after_nil] at distinct
  exact ⟨ends, distinct⟩

/-- Two calls that both list the peers before either adds one. -/
theorem concurrent_addresses_collide :
    let s := Run.after (step twoCalls) (start emptyPanel) [0, 0, 0, 1, 1, 1, 0, 0, 1, 1]
    s.stages 0 = .done ⟨"b.AA".toList, "AA==".toList, "AQ==".toList, ["10.8.0.2/32".toList]⟩ ∧
    s.stages 1 = .done ⟨"b.AQ".toList, "AQ==".toList, "AQ==".toList, ["10.8.0.2/32".toList]⟩ ∧
    (parseConf s.panel.host.file).peers.map ConfPeer.allowedIPs = [["10.8.0.2/32".toList], ["10.8.0.2/32".toList]] := by
  decide +kernel

end Calls

end Protean.WgFamily
