import Protean.Network.NodePerInstance

namespace Protean.Network
open Access (PeerRef)

/-- A call that neither makes a node nor links one. -/
def Plain (call : Option (Write × Outcome)) : Prop := call = none ∨ ∃ subnet o, call = some (.createSubnet subnet, o)

def Quiet {α : Type} (m : Request α) : Prop := ∀ s, Plain (m.pending s)

def Creates {α : Type} (ref : PeerRef) (m : Request α) : Prop :=
  ∃ node o, ∀ s, m.pending s = some (.createNode s.nextNode node (some ref), o)

def Links {α : Type} (ref : PeerRef) (id : Int) (m : Request α) : Prop := ∃ o, ∀ s, m.pending s = some (.setNodePeer ref id, o)

/-- How the calls of a detection follow on each other: a node is made right after its peer
was found without one, and linked right after that, unless the run stops. -/
def Next {α : Type} (s : Tables) (call : Option (Write × Outcome)) (rest : Request α) : Prop :=
  match call with
  | none => Quiet rest ∨ ∃ ref, s.nodePeer.get ref = none ∧ Creates ref rest
  | some (.createNode id _ (some ref), .ok) => id = s.nextNode ∧ Links ref id rest
  | some (.createNode id _ (some _), _) => id = s.nextNode ∧ rest = .done none
  | some (.setNodePeer _ _, _) => Quiet rest
  | some (.createSubnet _, _) => Quiet rest
  | _ => False

section
variable {α β : Type} {m : Request α} {f : α → Request β} {s : Tables}

theorem quiet_done (o : Option α) : Quiet (.done o : Request α) := fun _ => .inl rfl

theorem pending_bind {call : Write × Outcome} (pending : m.pending s = some call) : (m >>= f).pending s = some call := by
  cases m with
  | done answer => cases pending
  | step call next => exact pending

theorem quiet_bind (quiet : Quiet m) (rest : ∀ a, Quiet (f a)) : Quiet (m >>= f) := by
  cases m with
  | done answer =>
    cases answer with
    | none => exact quiet_done none
    | some a => exact rest a
  | step call next => exact quiet

theorem next_bind {call : Option (Write × Outcome)} (next : Next s call m) (rest : ∀ a, Quiet (f a)) :
    Next s call (m >>= f) := by
  unfold Next at next ⊢
  split at next
  · refine next.imp (fun quiet => quiet_bind quiet rest) ?_
    rintro ⟨ref, free, node, o, pending⟩
    exact ⟨ref, free, node, o, fun s => pending_bind (pending s)⟩
  · obtain ⟨id, o, pending⟩ := next
    exact ⟨id, o, fun s => pending_bind (pending s)⟩
  · obtain ⟨id, rfl⟩ := next
    exact ⟨id, rfl⟩
  · exact quiet_bind next rest
  · exact quiet_bind next rest
  · exact next

theorem follows_bind (follows : m.Follows Next) (quiet : ∀ a, Quiet (f a)) (rest : ∀ a, (f a).Follows Next) :
    (m >>= f).Follows Next := by
  change (Steps.bind m f).Follows Next
  induction m with
  | done answer =>
    cases answer with
    | none => trivial
    | some a => exact rest a
  | step call next ih => exact fun s => ⟨next_bind (follows s).1 quiet, ih s (follows s).2⟩

/-- A part of a detection that may stand behind any other. -/
def Calm (m : Request α) : Prop := Quiet m ∧ m.Follows Next

theorem calm_done (o : Option α) : Calm (.done o : Request α) := ⟨quiet_done o, trivial⟩

theorem Calm.bind (calm : Calm m) (rest : ∀ a, Calm (f a)) : Calm (m >>= f) :=
  ⟨quiet_bind calm.1 fun a => (rest a).1, follows_bind calm.2 (fun a => (rest a).1) fun a => (rest a).2⟩

end

section
variable {α : Type}

theorem calm_call (works : Bool) : Calm (Steps.call works : Request Unit) :=
  ⟨fun _ => .inl rfl, fun _ => ⟨.inl (quiet_done _), trivial⟩⟩

theorem calm_read (f : Tables → Option α) : Calm (Steps.read f : Request α) :=
  ⟨fun _ => .inl rfl, fun _ => ⟨.inl (quiet_done _), trivial⟩⟩

theorem quiet_createSubnet (outcome : Outcome) (db : CidrType) (provider cidr : Text) :
    Quiet (createSubnet outcome db provider cidr) := by
  intro s
  change Plain (Option.map _ (Option.bind (db.read cidr) _))
  cases db.read cidr with
  | none => exact .inl rfl
  | some net =>
    rw [Option.bind_some]
    split
    · exact .inr ⟨_, _, rfl⟩
    · exact .inl rfl

theorem follows_createSubnet (outcome : Outcome) (db : CidrType) (provider cidr : Text) :
    (createSubnet outcome db provider cidr).Follows Next := by
  intro s
  refine ⟨?_, trivial⟩
  rcases quiet_createSubnet outcome db provider cidr s with none' | ⟨subnet, o, made⟩
  · change Next s ((createSubnet outcome db provider cidr).pending s) _
    rw [none']
    exact .inl (quiet_done _)
  · change Next s ((createSubnet outcome db provider cidr).pending s) _
    rw [made]
    exact quiet_done _

theorem calm_createSubnets (db : CidrType) (outcome : Text → Outcome) (provider : Text) (known cidrs : List Text) :
    Calm (createSubnets db outcome provider known cidrs) := by
  induction cidrs generalizing known with
  | nil => exact calm_done _
  | cons cidr cidrs ih =>
    rw [createSubnets]
    split
    · exact ih known
    · exact Calm.bind ⟨quiet_createSubnet _ _ _ _, follows_createSubnet _ _ _ _⟩ fun _ => ih _

theorem calm_enableMeshPairs (works : Text → Bool) (done sibs : List Text) : Calm (enableMeshPairs works done sibs) := by
  induction sibs generalizing done with
  | nil => exact calm_done _
  | cons sib sibs ih =>
    rw [enableMeshPairs]
    split
    · exact ih done
    · exact (calm_call _).bind fun _ => ih _

theorem quiet_nodeOf (env : DecisionEnv) (ref : PeerRef) (d : DetectionDecision) : Quiet (nodeOf env ref d) :=
  fun _ => .inl rfl

theorem creates_makeNode (env : DecisionEnv) (ref : PeerRef) (d : DetectionDecision) : Creates ref (makeNode env ref d) :=
  ⟨_, env.createNode, fun _ => rfl⟩

theorem follows_makeNode (env : DecisionEnv) (ref : PeerRef) (d : DetectionDecision) : (makeNode env ref d).Follows Next := by
  have last : ∀ id, Calm (do Steps.call env.setCategory; return id : Request Int) := fun id =>
    (calm_call _).bind fun _ => calm_done _
  unfold makeNode createNode
  generalize env.createNode = o
  intro s
  cases o with
  | ok =>
    refine ⟨⟨rfl, env.setNodePeer, fun _ => rfl⟩, fun s' => ⟨?_, ?_⟩⟩
    · exact quiet_bind (quiet_done _) fun _ => (last _).1
    · exact follows_bind trivial (fun _ => (last _).1) fun _ => (last _).2
  | failed | lost => exact ⟨⟨rfl, rfl⟩, trivial⟩

theorem follows_nodeOf (env : DecisionEnv) (ref : PeerRef) (d : DetectionDecision) : (nodeOf env ref d).Follows Next := by
  unfold nodeOf getNodePeerOwnerID
  cases env.getOwner with
  | false => exact fun s => ⟨.inl (quiet_done _), trivial⟩
  | true =>
    intro s
    cases owned : s.nodePeer.get ref with
    | some owner =>
      dsimp only [Bind.bind, Steps.bind, Steps.read]
      rw [if_pos rfl, owned]
      exact ⟨.inl (quiet_done _), trivial⟩
    | none =>
      dsimp only [Bind.bind, Steps.bind, Steps.read]
      rw [if_pos rfl, owned]
      split
      · exact ⟨.inl (quiet_done _), trivial⟩
      · obtain ⟨node, o, pending⟩ := creates_makeNode env ref d
        have creates : Creates ref (some <$> makeNode env ref d : Request (Option Int)) :=
          ⟨node, o, fun s' => pending_bind (pending s')⟩
        have follows : (some <$> makeNode env ref d : Request (Option Int)).Follows Next :=
          follows_bind (follows_makeNode env ref d) (fun _ => quiet_done _) fun _ => trivial
        exact ⟨.inr ⟨ref, owned, creates⟩, follows⟩

theorem calm_applyNetworks (db : CidrType) (provider : Text) (d : DetectionDecision) (env : DecisionEnv)
    (done : List Text × List Text) : Calm (applyNetworks db provider d env done) := by
  have networks := (calm_createSubnets db env.createSubnet provider done.1 d.subnetsToCreate).bind fun known =>
    (calm_enableMeshPairs env.mesh done.2 d.meshWith).bind fun meshed => calm_done (some (known, meshed))
  unfold applyNetworks
  split
  · exact (calm_call _).bind fun _ => networks
  · exact networks

theorem calm_applyDecision (db : CidrType) (provider : Text) (d : DetectionDecision) (env : DecisionEnv)
    (done : List Text × List Text) : Calm (applyDecision db provider d env done) := by
  have kept : Calm (pure done : Request _) := calm_done _
  have dismissed : Calm (do Steps.call env.dismissed; return done : Request _) := (calm_call _).bind fun _ => kept
  unfold applyDecision
  split
  · exact kept
  · exact kept
  · exact dismissed
  · exact dismissed
  · refine Calm.bind ⟨quiet_nodeOf _ _ _, follows_nodeOf _ _ _⟩ fun id => ?_
    cases id with
    | none => exact kept
    | some id => exact calm_applyNetworks db provider d env done

theorem calm_applyDecisions (db : CidrType) (provider : Text) (decisions : List (DetectionDecision × DecisionEnv))
    (done : List Text × List Text) : Calm (applyDecisions db provider decisions done) := by
  induction decisions generalizing done with
  | nil => exact calm_done _
  | cons decision decisions ih => exact (calm_applyDecision db provider decision.1 decision.2 done).bind ih

theorem calm_applyNetworkDetection (db : CidrType) (listSubnets : Bool) (provider : Text)
    (decisions : List (DetectionDecision × DecisionEnv)) : Calm (applyNetworkDetection db listSubnets provider decisions) :=
  (calm_read _).bind fun _ => calm_applyDecisions _ _ _ _

end

/-- The nodes that were made for peers. -/
def creations (log : List Write) : List (PeerRef × Int) :=
  log.filterMap fun
    | .createNode id _ (some ref) => some (ref, id)
    | _ => none

theorem creations_append (log log' : List Write) : creations (log ++ log') = creations log ++ creations log' :=
  List.filterMap_append

abbrev Runs := Steps.Pool Tables Write Unit

/-- What one call of a detection does to the nodes and their peers. -/
inductive Move (p : Runs) (i : Nat) (p' : Runs) : Prop
  | idle (pending : Plain (p.pending i)) (peers : p'.state.nodePeer = p.state.nodePeer)
      (ids : p'.state.nextNode = p.state.nextNode) (made : creations p'.log = creations p.log)
      (next : Quiet (p'.threads i) ∨ ∃ ref, p.state.nodePeer.get ref = none ∧ Creates ref (p'.threads i))
  | create (ref : PeerRef) (node : Node) (o : Outcome)
      (pending : p.pending i = some (.createNode p.state.nextNode node (some ref), o)) (done : o ≠ .failed)
      (peers : p'.state.nodePeer = p.state.nodePeer) (ids : p'.state.nextNode = p.state.nextNode + 1)
      (made : creations p'.log = creations p.log ++ [(ref, p.state.nextNode)])
      (next : o = .ok ∧ Links ref p.state.nextNode (p'.threads i) ∨ o = .lost ∧ Quiet (p'.threads i))
  | createFailed (ref : PeerRef) (id : Int) (node : Node) (pending : p.pending i = some (.createNode id node (some ref), .failed))
      (peers : p'.state.nodePeer = p.state.nodePeer) (ids : p'.state.nextNode = p.state.nextNode)
      (made : creations p'.log = creations p.log) (next : Quiet (p'.threads i))
  | link (ref : PeerRef) (id : Int) (o : Outcome) (pending : p.pending i = some (.setNodePeer ref id, o)) (done : o ≠ .failed)
      (peers : p'.state.nodePeer = p.state.nodePeer.upsert ref id) (ids : p'.state.nextNode = p.state.nextNode)
      (made : creations p'.log = creations p.log) (next : Quiet (p'.threads i))
  | linkFailed (ref : PeerRef) (id : Int) (pending : p.pending i = some (.setNodePeer ref id, .failed))
      (peers : p'.state.nodePeer = p.state.nodePeer) (ids : p'.state.nextNode = p.state.nextNode)
      (made : creations p'.log = creations p.log) (next : Quiet (p'.threads i))

theorem move {p : Runs} {i : Nat} (follows : (p.threads i).Follows Next) : Move p i (p.step Write.apply i) := by
  cases running : p.threads i with
  | done answer =>
    have pending : p.pending i = none := by rw [Steps.Pool.pending, running]; rfl
    rw [Steps.Pool.step_of_done running]
    exact .idle (.inl pending) rfl rfl rfl (.inl (by rw [running]; exact quiet_done answer))
  | step call next =>
    rw [running] at follows
    have pending : p.pending i = call p.state := by rw [Steps.Pool.pending, running]; rfl
    have after : (p.step Write.apply i).threads i = next p.state := by
      rw [Steps.Pool.step_of_step running]
      exact Function.update_self _ _ _
    have state : (p.step Write.apply i).state = Steps.effect Write.apply (p.pending i) p.state := Steps.Pool.state_step p i
    have log : (p.step Write.apply i).log = p.log ++ (Steps.written (p.pending i)).toList := Steps.Pool.log_step p i
    have here := (follows p.state).1
    rw [← pending, ← after] at here
    generalize p.step Write.apply i = p' at here state log
    cases made : p.pending i with
    | none =>
      rw [made] at here state log
      refine .idle (.inl made) (by rw [state]; rfl) (by rw [state]; rfl) (by rw [log]; exact congrArg _ (List.append_nil _)) here
    | some c =>
      obtain ⟨w, o⟩ := c
      rw [made] at here state log
      cases w with
      | createNode id node peer =>
        cases peer with
        | none => exact here.elim
        | some ref =>
          cases o with
          | ok =>
            obtain ⟨rfl, links⟩ := here
            exact .create ref node .ok made (by decide) (by rw [state]; rfl) (by rw [state]; rfl)
              (by rw [log, creations_append]; rfl) (.inl ⟨rfl, links⟩)
          | failed =>
            exact .createFailed ref id node made (by rw [state]; rfl) (by rw [state]; rfl)
              (by rw [log]; exact congrArg _ (List.append_nil _)) (by rw [here.2]; exact quiet_done none)
          | lost =>
            obtain ⟨rfl, stopped⟩ := here
            exact .create ref node .lost made (by decide) (by rw [state]; rfl) (by rw [state]; rfl)
              (by rw [log, creations_append]; rfl) (.inr ⟨rfl, by rw [stopped]; exact quiet_done none⟩)
      | setNodePeer ref id =>
        have same : creations p'.log = creations p.log := by
          rw [log, creations_append]
          cases o <;> exact List.append_nil _
        cases o with
        | failed => exact .linkFailed ref id made (by rw [state]; rfl) (by rw [state]; rfl) same here
        | ok => exact .link ref id .ok made (by decide) (by rw [state]; rfl) (by rw [state]; rfl) same here
        | lost => exact .link ref id .lost made (by decide) (by rw [state]; rfl) (by rw [state]; rfl) same here
      | createSubnet subnet =>
        refine .idle (.inr ⟨subnet, o, made⟩) ?_ ?_ ?_ (.inl here)
        · rw [state]; cases o <;> rfl
        · rw [state]; cases o <;> rfl
        · rw [log, creations_append]; cases o <;> exact List.append_nil _
      | _ => exact here.elim

variable {o : Outcome}

theorem not_plain_createNode {id : Int} {node : Node} {peer : Option PeerRef} :
    ¬ Plain (some (.createNode id node peer, o)) := by
  rintro (none' | ⟨_, _, other⟩)
  · cases none'
  · cases other

theorem not_plain_setNodePeer {ref : PeerRef} {id : Int} : ¬ Plain (some (.setNodePeer ref id, o)) := by
  rintro (none' | ⟨_, _, other⟩)
  · cases none'
  · cases other

/-- Of the request that has made its call, what comes next is known. -/
structure Entered (s₀ : Tables) (made : List (PeerRef × Int)) (m : Request Unit) : Prop where
  creating : ∀ s id node peer o, m.pending s = some (.createNode id node peer, o) → ∃ ref, peer = some ref ∧ s₀.nodePeer.get ref = none
  linking : ∀ s ref id o, m.pending s = some (.setNodePeer ref id, o) →
    (ref, id) ∈ made ∧ ∀ s', m.pending s' = some (.setNodePeer ref id, o)

section
variable {s₀ : Tables} {made : List (PeerRef × Int)} {m : Request Unit}

theorem Entered.of_quiet (quiet : Quiet m) : Entered s₀ made m := by
  refine ⟨fun s id node peer o pending => ?_, fun s ref id o pending => ?_⟩
  · have plain := quiet s
    rw [pending] at plain
    exact absurd plain not_plain_createNode
  · have plain := quiet s
    rw [pending] at plain
    exact absurd plain not_plain_setNodePeer

theorem Entered.of_creates {ref : PeerRef} (free : s₀.nodePeer.get ref = none) (creates : Creates ref m) : Entered s₀ made m := by
  obtain ⟨node, o, pending⟩ := creates
  refine ⟨fun s id node' peer o' found => ⟨ref, ?_, free⟩, fun s ref id o' found => ?_⟩
  · rw [pending s] at found
    cases found
    rfl
  · rw [pending s] at found
    cases found

theorem Entered.of_links {ref : PeerRef} {id : Int} (listed : (ref, id) ∈ made) (links : Links ref id m) : Entered s₀ made m := by
  obtain ⟨o, pending⟩ := links
  refine ⟨fun s id node peer o' found => ?_, fun s ref' id' o' found => ?_⟩
  · rw [pending s] at found
    cases found
  · rw [pending s] at found
    cases found
    exact ⟨listed, pending⟩

theorem Entered.mono {made' : List (PeerRef × Int)} (entered : Entered s₀ made m) (grows : ∀ c ∈ made, c ∈ made') :
    Entered s₀ made' m :=
  ⟨entered.creating, fun s ref id o pending => (entered.linking s ref id o pending).imp_left (grows _)⟩

end

theorem not_links_of_quiet {ref : PeerRef} {id : Int} {m : Request Unit} (quiet : Quiet m) : ¬ Links ref id m := by
  rintro ⟨o, pending⟩
  have plain := quiet {}
  rw [pending] at plain
  exact not_plain_setNodePeer plain

theorem not_links_of_creates {ref ref' : PeerRef} {id : Int} {m : Request Unit} (creates : Creates ref' m) : ¬ Links ref id m := by
  rintro ⟨o, pending⟩
  obtain ⟨node, o', other⟩ := creates
  have both := (pending {}).symm.trans (other {})
  cases both

theorem Links.eq {ref ref' : PeerRef} {id id' : Int} {m : Request Unit} (links : Links ref id m) (links' : Links ref' id' m) :
    ref = ref' ∧ id = id' := by
  obtain ⟨o, pending⟩ := links
  obtain ⟨o', pending'⟩ := links'
  have both := (pending {}).symm.trans (pending' {})
  cases both
  exact ⟨rfl, rfl⟩

/-- What a run of detections keeps in any case: the positions of the requests, where nodes
and rows come from, and that a node is linked by the run that made it. -/
structure History (s₀ : Tables) (p : Runs) : Prop where
  follows : ∀ i, (p.threads i).Follows Next
  entered : ∀ i, Entered s₀ (creations p.log) (p.threads i)
  rows : ∀ ref id, p.state.nodePeer.get ref = some id → s₀.nodePeer.get ref = some id ∨ (ref, id) ∈ creations p.log
  kept : ∀ ref, p.state.nodePeer.get ref = none → s₀.nodePeer.get ref = none
  drawn : s₀.nextNode ≤ p.state.nextNode
  below : ∀ c ∈ creations p.log, c.2 < p.state.nextNode
  unlinked : ∀ i ref id, Links ref id (p.threads i) →
    p.state.nodePeer.get ref ≠ some id ∧ ∀ j, Links ref id (p.threads j) → j = i

section
variable {s₀ : Tables} {p p' : Runs} {i : Nat}

variable {id : Int}

theorem History.listed (history : History s₀ p) {ref : PeerRef} (links : Links ref id (p.threads i)) :
    (ref, id) ∈ creations p.log := by
  obtain ⟨o, pending⟩ := links
  exact ((history.entered i).linking {} ref id o (pending {})).1

/-- An id that has yet to be drawn is on no row, and no run is about to set it. -/
theorem History.fresh (history : History s₀ p) (old : ∀ ref id, s₀.nodePeer.get ref = some id → id < s₀.nextNode)
    (ref : PeerRef) : p.state.nodePeer.get ref ≠ some p.state.nextNode ∧
      ∀ j, ¬ Links ref p.state.nextNode (p.threads j) := by
  refine ⟨fun row => ?_, fun j links => (history.below _ (history.listed links)).false⟩
  rcases history.rows ref _ row with start | made
  · exact absurd (old ref _ start) (not_lt.mpr history.drawn)
  · exact (history.below _ made).false

section
variable (history : History s₀ p) (others : ∀ j, j ≠ i → p'.threads j = p.threads j)
include others

variable {ref : PeerRef}

/-- A request that is about to link was so before, unless it has just made its node. -/
theorem links_before (none' : ∀ ref id, ¬ Links ref id (p'.threads i)) {j : Nat} (links : Links ref id (p'.threads j)) :
    j ≠ i ∧ Links ref id (p.threads j) := by
  have other : j ≠ i := fun same => none' ref id (same ▸ links)
  rw [others j other] at links
  exact ⟨other, links⟩

include history

theorem History.enter {made : List (PeerRef × Int)} (grows : ∀ c ∈ creations p.log, c ∈ made)
    (here : Entered s₀ made (p'.threads i)) (j : Nat) : Entered s₀ made (p'.threads j) := by
  by_cases same : j = i
  · rw [same]
    exact here
  · rw [others j same]
    exact (history.entered j).mono grows

theorem History.still_unlinked (peers : p'.state.nodePeer = p.state.nodePeer) (none' : ∀ ref id, ¬ Links ref id (p'.threads i))
    (j : Nat) (ref : PeerRef) (id : Int) (links : Links ref id (p'.threads j)) :
    p'.state.nodePeer.get ref ≠ some id ∧ ∀ k, Links ref id (p'.threads k) → k = j := by
  obtain ⟨free, only⟩ := history.unlinked j ref id (links_before others none' links).2
  rw [peers]
  exact ⟨free, fun k links' => only k (links_before others none' links').2⟩

/-- A call that changes no row and makes no node. -/
theorem History.same (follows : ∀ j, (p'.threads j).Follows Next) (peers : p'.state.nodePeer = p.state.nodePeer)
    (ids : p'.state.nextNode = p.state.nextNode) (made : creations p'.log = creations p.log)
    (here : Entered s₀ (creations p.log) (p'.threads i)) (none' : ∀ ref id, ¬ Links ref id (p'.threads i)) : History s₀ p' := by
  refine ⟨follows, ?_, ?_, ?_, ?_, ?_, history.still_unlinked others peers none'⟩
  · rw [made]
    exact history.enter others (fun _ listed => listed) here
  · rw [peers, made]
    exact history.rows
  · rw [peers]
    exact history.kept
  · rw [ids]
    exact history.drawn
  · rw [ids, made]
    exact history.below

/-- The new node is linked by no one but the run that made it. -/
theorem History.unlinked_create (old : ∀ ref id, s₀.nodePeer.get ref = some id → id < s₀.nextNode)
    (peers : p'.state.nodePeer = p.state.nodePeer) (mine : Links ref p.state.nextNode (p'.threads i)) (j : Nat) (r : PeerRef)
    (x : Int) (links : Links r x (p'.threads j)) :
    p'.state.nodePeer.get r ≠ some x ∧ ∀ k, Links r x (p'.threads k) → k = j := by
  obtain ⟨free, nobody⟩ := history.fresh old ref
  rw [peers]
  by_cases same : j = i
  · obtain ⟨rfl, rfl⟩ := mine.eq (same ▸ links)
    refine ⟨free, fun k links' => ?_⟩
    by_contra other
    rw [others k (fun eq => other (eq.trans same.symm))] at links'
    exact nobody k links'
  · rw [others j same] at links
    obtain ⟨free', only⟩ := history.unlinked j r x links
    refine ⟨free', fun k links' => ?_⟩
    by_cases own : k = i
    · obtain ⟨rfl, rfl⟩ := mine.eq (own ▸ links')
      exact absurd links (nobody j)
    · rw [others k own] at links'
      exact only k links'

theorem History.create (old : ∀ ref id, s₀.nodePeer.get ref = some id → id < s₀.nextNode)
    (follows : ∀ j, (p'.threads j).Follows Next) (peers : p'.state.nodePeer = p.state.nodePeer)
    (ids : p'.state.nextNode = p.state.nextNode + 1) (made : creations p'.log = creations p.log ++ [(ref, p.state.nextNode)])
    (next : o = .ok ∧ Links ref p.state.nextNode (p'.threads i) ∨ o = .lost ∧ Quiet (p'.threads i)) : History s₀ p' := by
  have grows : ∀ c ∈ creations p.log, c ∈ creations p'.log := by
    rw [made]
    exact fun c listed => List.mem_append_left _ listed
  have new : (ref, p.state.nextNode) ∈ creations p'.log := by
    rw [made]
    exact List.mem_append_right _ (List.mem_singleton_self _)
  have here : Entered s₀ (creations p'.log) (p'.threads i) := by
    rcases next with ⟨-, links⟩ | ⟨-, quiet⟩
    · exact .of_links new links
    · exact .of_quiet quiet
  refine ⟨follows, history.enter others grows here, ?_, ?_, ?_, ?_, ?_⟩
  · rw [peers]
    exact fun r x row => (history.rows r x row).imp_right (grows _)
  · rw [peers]
    exact history.kept
  · rw [ids]
    exact history.drawn.trans (Int.le_add_one le_rfl)
  · intro c listed
    rw [made] at listed
    rw [ids]
    rcases List.mem_append.mp listed with before | last
    · exact (history.below c before).trans (Int.lt_succ _)
    · rw [List.mem_singleton.mp last]
      exact Int.lt_succ _
  · rcases next with ⟨-, mine⟩ | ⟨-, quiet⟩
    · exact history.unlinked_create others old peers mine
    · exact history.still_unlinked others peers fun _ _ => not_links_of_quiet quiet

theorem History.link (follows : ∀ j, (p'.threads j).Follows Next) (mine : Links ref id (p.threads i))
    (peers : p'.state.nodePeer = p.state.nodePeer.upsert ref id) (ids : p'.state.nextNode = p.state.nextNode)
    (made : creations p'.log = creations p.log) (next : Quiet (p'.threads i)) : History s₀ p' := by
  have row : ∀ r, p'.state.nodePeer.get r = if r = ref then some id else p.state.nodePeer.get r := by
    intro r
    rw [peers, KeyTable.get_upsert]
  have none' : ∀ ref id, ¬ Links ref id (p'.threads i) := fun _ _ => not_links_of_quiet next
  refine ⟨follows, ?_, ?_, ?_, ?_, ?_, ?_⟩
  · rw [made]
    exact history.enter others (fun _ listed => listed) (.of_quiet next)
  · intro r x found
    rw [row] at found
    rw [made]
    split at found
    · rename_i same
      rw [same, ← Option.some.inj found]
      exact .inr (history.listed mine)
    · exact history.rows r x found
  · intro r free
    rw [row] at free
    split at free
    · cases free
    · exact history.kept r free
  · rw [ids]
    exact history.drawn
  · rw [ids, made]
    exact history.below
  · intro j r x links
    obtain ⟨other, links⟩ := links_before others none' links
    obtain ⟨free, only⟩ := history.unlinked j r x links
    refine ⟨fun found => ?_, fun k links' => only k (links_before others none' links').2⟩
    rw [row] at found
    split at found
    · rename_i same
      rw [same, ← Option.some.inj found] at links
      exact other ((history.unlinked i ref id mine).2 j links)
    · exact free found

theorem History.move (old : ∀ ref id, s₀.nodePeer.get ref = some id → id < s₀.nextNode)
    (follows : ∀ j, (p'.threads j).Follows Next) (move : Move p i p') : History s₀ p' := by
  cases move with
  | idle pending peers ids made next =>
    rcases next with quiet | ⟨ref, free, creates⟩
    · exact history.same others follows peers ids made (.of_quiet quiet) fun _ _ => not_links_of_quiet quiet
    · exact history.same others follows peers ids made (.of_creates (history.kept ref free) creates) fun _ _ =>
        not_links_of_creates creates
  | create ref node o pending done peers ids made next => exact history.create others old follows peers ids made next
  | createFailed ref id node pending peers ids made next | linkFailed ref id pending peers ids made next =>
    exact history.same others follows peers ids made (.of_quiet next) fun _ _ => not_links_of_quiet next
  | link ref id o pending done peers ids made next =>
    exact history.link others follows ⟨o, ((history.entered i).linking p.state ref id o pending).2⟩ peers ids made next

end

end

/-- For each peer at most one node was made, and it has its peer, or a run is about to
give it to it. -/
structure Sound (p : Runs) : Prop where
  once : ((creations p.log).map (·.1)).Nodup
  linked : ∀ ref id, (ref, id) ∈ creations p.log →
    p.state.nodePeer.get ref = some id ∨ ∃ j, Links ref id (p.threads j)

/-- A node is made while its peer still has none and no other run is about to give it one,
and the answer arrives; and the peer is set. -/
def Unhindered (p : Runs) (i : Nat) : Prop :=
  match p.pending i with
  | some (.createNode _ _ (some ref), o) =>
    o = .failed ∨ o = .ok ∧ p.state.nodePeer.get ref = none ∧ ∀ j id, ¬ Links ref id (p.threads j)
  | some (.setNodePeer _ _, o) => o ≠ .failed
  | _ => True

section
variable {s₀ : Tables} {p p' : Runs} {i : Nat}

variable {ref : PeerRef} {id : Int}

theorem links_kept (others : ∀ j, j ≠ i → p'.threads j = p.threads j) (none' : ¬ Links ref id (p.threads i))
    (links : ∃ j, Links ref id (p.threads j)) : ∃ j, Links ref id (p'.threads j) := by
  obtain ⟨j, links⟩ := links
  have other : j ≠ i := fun same => none' (same ▸ links)
  exact ⟨j, (others j other).symm ▸ links⟩

theorem Sound.eq_of_mem (sound : Sound p) {id' : Int} (made : (ref, id) ∈ creations p.log)
    (made' : (ref, id') ∈ creations p.log) : id = id' :=
  congrArg Prod.snd (List.inj_on_of_nodup_map sound.once made made' rfl)

theorem not_links_of_pending {call : Option (Write × Outcome)} (pending : p.pending i = call)
    (other : ∀ ref id o, call ≠ some (.setNodePeer ref id, o)) (ref : PeerRef) (id : Int) : ¬ Links ref id (p.threads i) := by
  rintro ⟨o, here⟩
  exact other ref id o (pending.symm.trans (here p.state))

/-- A call that changes no row and makes no node, of a run that is not about to link. -/
theorem Sound.same (sound : Sound p) (others : ∀ j, j ≠ i → p'.threads j = p.threads j)
    (peers : p'.state.nodePeer = p.state.nodePeer) (made : creations p'.log = creations p.log)
    (none' : ∀ ref id, ¬ Links ref id (p.threads i)) : Sound p' := by
  refine ⟨made ▸ sound.once, fun ref id listed => ?_⟩
  rw [made] at listed
  rw [peers]
  exact (sound.linked ref id listed).imp_right (links_kept others (none' ref id))

theorem Sound.create (history : History s₀ p) (old : ∀ ref id, s₀.nodePeer.get ref = some id → id < s₀.nextNode)
    (sound : Sound p) (others : ∀ j, j ≠ i → p'.threads j = p.threads j) {node : Node}
    (pending : p.pending i = some (.createNode p.state.nextNode node (some ref), o))
    (peers : p'.state.nodePeer = p.state.nodePeer) (made : creations p'.log = creations p.log ++ [(ref, p.state.nextNode)])
    (next : o = .ok ∧ Links ref p.state.nextNode (p'.threads i) ∨ o = .lost ∧ Quiet (p'.threads i)) :
    Sound p' ↔ o = .ok ∧ p.state.nodePeer.get ref = none ∧ ∀ j id, ¬ Links ref id (p.threads j) := by
  have once_iff : ((creations p'.log).map (·.1)).Nodup ↔ ∀ id, (ref, id) ∉ creations p.log := by
    rw [made, List.map_append, List.map_singleton, ← List.concat_eq_append, List.nodup_concat, and_iff_left sound.once]
    simp
  constructor
  · intro after
    have first := once_iff.mp after.once
    have listed : (ref, p.state.nextNode) ∈ creations p'.log := by
      rw [made]
      exact List.mem_append_right _ (List.mem_singleton_self _)
    obtain ⟨free, nobody⟩ := history.fresh old ref
    have ok : o = .ok := by
      rcases next with ⟨ok, -⟩ | ⟨-, quiet⟩
      · exact ok
      -- the run that made it is over
      · rcases after.linked ref _ listed with row | ⟨j, links⟩
        · exact absurd (peers ▸ row) free
        · by_cases same : j = i
          · exact absurd (same ▸ links) (not_links_of_quiet quiet)
          · exact absurd (others j same ▸ links) (nobody j)
    refine ⟨ok, ?_, fun j id links => first id (history.listed links)⟩
    by_contra taken
    obtain ⟨id, row⟩ := Option.ne_none_iff_exists'.mp taken
    obtain ⟨ref', same, start⟩ := (history.entered i).creating p.state _ node _ o pending
    obtain rfl := Option.some.inj same
    rcases history.rows ref id row with before | listed'
    · cases start.symm.trans before
    · exact first id listed'
  · rintro ⟨ok, free, nobody⟩
    refine ⟨once_iff.mpr fun id listed => ?_, fun r id listed => ?_⟩
    · rcases sound.linked ref id listed with row | ⟨j, links⟩
      · cases free.symm.trans row
      · exact nobody j id links
    · rw [made] at listed
      rcases List.mem_append.mp listed with before | last
      · rw [peers]
        exact (sound.linked r id before).imp_right
          (links_kept others (not_links_of_pending pending (fun _ _ _ => by simp) r id))
      · obtain ⟨rfl, rfl⟩ := Prod.mk.inj (List.mem_singleton.mp last)
        rcases next with ⟨-, links⟩ | ⟨lost, -⟩
        · exact .inr ⟨i, links⟩
        · cases ok.symm.trans lost

theorem Sound.link (history : History s₀ p) (sound : Sound p) (others : ∀ j, j ≠ i → p'.threads j = p.threads j)
    (mine : Links ref id (p.threads i)) (peers : p'.state.nodePeer = p.state.nodePeer.upsert ref id)
    (made : creations p'.log = creations p.log) : Sound p' := by
  refine ⟨made ▸ sound.once, fun r x listed => ?_⟩
  rw [made] at listed
  rw [peers, KeyTable.get_upsert]
  by_cases same : r = ref
  · have own : x = id := sound.eq_of_mem (same ▸ listed) (history.listed mine)
    rw [if_pos same, own]
    exact .inl rfl
  · rw [if_neg same]
    exact (sound.linked r x listed).imp_right (links_kept others fun links => same (mine.eq links).1.symm)

/-- A node whose peer could not be set is left without it. -/
theorem Sound.not_linkFailed (history : History s₀ p) (others : ∀ j, j ≠ i → p'.threads j = p.threads j)
    (mine : Links ref id (p.threads i)) (peers : p'.state.nodePeer = p.state.nodePeer)
    (made : creations p'.log = creations p.log) (next : Quiet (p'.threads i)) : ¬ Sound p' := by
  intro after
  obtain ⟨free, only⟩ := history.unlinked i ref id mine
  rcases after.linked ref id (made ▸ history.listed mine) with row | ⟨j, links⟩
  · exact free (peers ▸ row)
  · by_cases same : j = i
    · exact not_links_of_quiet next (same ▸ links)
    · exact same (only j (others j same ▸ links))

/-- Exactly the unhindered calls keep a run sound. -/
theorem Sound.move_iff (history : History s₀ p) (old : ∀ ref id, s₀.nodePeer.get ref = some id → id < s₀.nextNode)
    (sound : Sound p) (others : ∀ j, j ≠ i → p'.threads j = p.threads j) (move : Move p i p') :
    Sound p' ↔ Unhindered p i := by
  unfold Unhindered
  cases move with
  | idle pending peers ids made next =>
    refine iff_of_true (sound.same others peers made ?_) ?_
    · rcases pending with none' | ⟨subnet, o, some'⟩
      · exact not_links_of_pending none' fun _ _ _ => by simp
      · exact not_links_of_pending some' fun _ _ _ => by simp
    · rcases pending with none' | ⟨subnet, o, some'⟩
      · rw [none']
        trivial
      · rw [some']
        trivial
  | create ref node o pending done peers ids made next =>
    rw [Sound.create history old sound others pending peers made next, pending]
    exact (or_iff_right done).symm
  | createFailed ref id node pending peers ids made next =>
    rw [pending]
    exact iff_of_true (sound.same others peers made (not_links_of_pending pending fun _ _ _ => by simp)) (.inl rfl)
  | link ref id o pending done peers ids made next =>
    have mine : Links ref id (p.threads i) := ⟨o, ((history.entered i).linking p.state ref id o pending).2⟩
    rw [pending]
    exact iff_of_true (sound.link history others mine peers made) done
  | linkFailed ref id pending peers ids made next =>
    have mine : Links ref id (p.threads i) := ⟨_, ((history.entered i).linking p.state ref id _ pending).2⟩
    rw [pending]
    exact iff_of_false (Sound.not_linkFailed history others mine peers made next) fun other => other rfl

end

/-- One run of a detection, with what its calls come to. -/
structure DetectionRun where
  db : CidrType
  listSubnets : Bool := true
  provider : Text
  decisions : List (DetectionDecision × DecisionEnv)

def DetectionRun.request (run : DetectionRun) : Request Unit :=
  applyNetworkDetection run.db run.listSubnets run.provider run.decisions

def detections (s : Tables) (runs : Nat → DetectionRun) : Runs := ⟨s, fun i => (runs i).request, []⟩

theorem history_detections (s : Tables) (runs : Nat → DetectionRun) : History s (detections s runs) := by
  have quiet : ∀ i, Quiet (runs i).request := fun i => (calm_applyNetworkDetection _ _ _ _).1
  refine ⟨fun i => (calm_applyNetworkDetection _ _ _ _).2, fun i => .of_quiet (quiet i), fun _ _ row => .inl row,
    fun _ none' => none', le_rfl, fun _ listed => ?_, fun i _ _ links => absurd links (not_links_of_quiet (quiet i))⟩
  exact absurd listed List.not_mem_nil

/-- However the calls of runs interleave, of one batch or of several, and of runs that stop
and are made again: no second node is made for a peer and none is left without its peer,
all the way, exactly if each node is made while its peer is still free of one, its id
arrives and the peer is then set. -/
theorem detection_once_iff (s : Tables) (wf : WellFormed s) (runs : Nat → DetectionRun) (schedule : List Nat) :
    (∀ first, first <+: schedule → Sound (Run.after (Steps.Pool.step Write.apply) (detections s runs) first)) ↔
      Run.Meets (Steps.Pool.step Write.apply) Unhindered (detections s runs) schedule := by
  have old : ∀ ref id, s.nodePeer.get ref = some id → id < s.nextNode := by
    intro ref id row
    by_contra above
    exact wf.known ref id row (wf.drawn id (not_lt.mp above))
  have step : ∀ (p : Runs) (i : Nat), History s p → True → History s (p.step Write.apply i) := fun p i history _ =>
    history.move (fun _ other => Steps.Pool.threads_step_of_ne other) old (Steps.Pool.follows_step history.follows i)
      (move (history.follows i))
  have exact : ∀ (p : Runs) (i : Nat), History s p → Sound p → True → (Sound (p.step Write.apply i) ↔ Unhindered p i) :=
    fun p i history sound _ =>
      Sound.move_iff history old sound (fun _ other => Steps.Pool.threads_step_of_ne other) (move (history.follows i))
  have start : Sound (detections s runs) := ⟨List.nodup_nil, fun _ _ listed => absurd listed List.not_mem_nil⟩
  exact Run.Meets.throughout_iff_beside step exact (history_detections s runs) start
    (Run.Meets.of_forall (fun _ _ => trivial) _ schedule)

def gateway : PeerRef := ("srv:wg0".toList, "s.YQ".toList)

/-- A batch of one decision, which makes a node for a peer. -/
def oneRouter (env : DecisionEnv) : DetectionRun where
  db := plainCidr
  provider := gateway.1
  decisions := [({ peerID := gateway.2, action := .createNode, nodeName := "a".toList }, env)]

/-- A run and then another one of the same batch. -/
theorem detection_once_sample :
    let runs : Nat → DetectionRun := fun _ => oneRouter {}
    ∀ first, first <+: [0, 0, 0, 0, 0, 1, 1] →
      Sound (Run.after (Steps.Pool.step Write.apply) (detections {} runs) first) := by
  refine (detection_once_iff {} ⟨fun _ _ => rfl, fun _ _ row => by cases row⟩ _ _).mpr
    ⟨trivial, trivial, .inr ⟨rfl, rfl, fun j id links => ?_⟩, (by decide : Outcome.ok ≠ .failed), trivial, trivial, trivial, trivial⟩
  by_cases same : j = 0
  · subst same
    obtain ⟨o, pending⟩ := links
    cases pending {}
  · rw [Steps.Pool.threads_step_of_ne same, Steps.Pool.threads_step_of_ne same] at links
    exact not_links_of_quiet (calm_applyNetworkDetection _ _ _ _).1 links

/-- Two runs of a batch that both look before either writes; a run whose second write fails,
and a retry. Both make two nodes for one peer, and the first of them is left without it. -/
theorem detection_makes_two_nodes :
    let twice (runs : Nat → DetectionRun) (schedule : List Nat) :=
      let p := Run.after (Steps.Pool.step Write.apply) (detections {} runs) schedule
      ¬ Sound p ∧ creations p.log = [(gateway, 1), (gateway, 2)] ∧ p.state.nodePeer.get gateway = some 2
    twice (fun _ => oneRouter {}) [0, 0, 1, 1, 0, 1, 0, 1, 0, 1] ∧
      twice (fun i => oneRouter (if i = 0 then { setNodePeer := .failed } else {})) [0, 0, 0, 0, 1, 1, 1, 1, 1] := by
  refine ⟨⟨fun sound => ?_, ?_, ?_⟩, ⟨fun sound => ?_, ?_, ?_⟩⟩
  · exact absurd sound.once (by decide +kernel)
  · decide +kernel
  · decide +kernel
  · exact absurd sound.once (by decide +kernel)
  · decide +kernel
  · decide +kernel

end Protean.Network
