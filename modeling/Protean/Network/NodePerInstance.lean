import Protean.Network.Handlers

namespace Protean.Network
open Access (PeerRef ProviderType)

/-- At most one network node has peers on an instance. -/
def OneNetworkNode (s : Tables) : Prop :=
  ∀ ref ref' a b, ref.1 = ref'.1 → s.nodePeer.get ref = some a → s.nodePeer.get ref' = some b →
    s.isNetworkNode a = true → s.isNetworkNode b = true → a = b

/-- The sequence is ahead of the ids, and a row of `node_peer` refers to a node. -/
structure WellFormed (s : Tables) : Prop where
  drawn : ∀ id, s.nextNode ≤ id → s.nodes.get id = none
  known : ∀ ref id, s.nodePeer.get ref = some id → s.nodes.get id ≠ none

/-- A write that refers to a node refers to one that is there; a new one has the id that
is drawn. -/
def Refers (s : Tables) : Write → Prop
  | .createNode id _ _ => id = s.nextNode
  | .setNodePeer _ id => s.nodes.get id ≠ none
  | .updateNode id _ => s.nodes.get id ≠ none
  | _ => True

/-- What an owner or a role may be set to: no other network node has another peer on the
instance, or on any instance on which the node has peers. -/
def Permitted (s : Tables) : Write → Prop
  | .setNodePeer ref id => s.isNetworkNode id = true →
      ∀ ref' b, ref'.1 = ref.1 → ref' ≠ ref → s.nodePeer.get ref' = some b → s.isNetworkNode b = true → b = id
  | .updateNode id node => node.role = .networkNode →
      ∀ ref ref' b, ref'.1 = ref.1 → s.nodePeer.get ref = some id → s.nodePeer.get ref' = some b →
        s.isNetworkNode b = true → b = id
  | _ => True

section
variable {s : Tables} {w : Write}

theorem isNetworkNode_upsert (s : Tables) (id x : Int) (node : Node) :
    Tables.isNetworkNode { s with nodes := s.nodes.upsert id node } x =
      if x = id then decide (node.role = .networkNode) else s.isNetworkNode x := by
  rw [Tables.isNetworkNode, KeyTable.get_upsert]
  split <;> rfl

theorem WellFormed.get_ne_none_upsert {id x : Int} (node : Node) (there : s.nodes.get x ≠ none) :
    (s.nodes.upsert id node).get x ≠ none := by
  rw [KeyTable.get_upsert]
  split
  · exact Option.some_ne_none _
  · exact there

theorem WellFormed.apply (wf : WellFormed s) (refers : Refers s w) : WellFormed (w.apply s) := by
  cases w with
  | createNode id node peer =>
    obtain rfl : id = s.nextNode := refers
    refine ⟨fun id above => ?_, fun ref id row => WellFormed.get_ne_none_upsert node (wf.known ref id row)⟩
    have later : s.nextNode < id := Int.lt_of_add_one_le above
    exact (KeyTable.get_upsert_of_ne _ _ later.ne').trans (wf.drawn id later.le)
  | updateNode id node =>
    refine ⟨fun x above => ?_, fun ref x row => WellFormed.get_ne_none_upsert node (wf.known ref x row)⟩
    have other : x ≠ id := fun same => refers (same ▸ wf.drawn x above)
    exact (KeyTable.get_upsert_of_ne _ _ other).trans (wf.drawn x above)
  | setNodePeer ref id =>
    refine ⟨wf.drawn, fun ref' x row => ?_⟩
    rw [Write.apply, KeyTable.get_upsert] at row
    split at row
    · rw [← Option.some.inj row]
      exact refers
    · exact wf.known ref' x row
  | clearNodePeer ref =>
    refine ⟨wf.drawn, fun ref' x row => ?_⟩
    rw [Write.apply, KeyTable.get_delete] at row
    split at row
    · cases row
    · exact wf.known ref' x row
  | _ => exact ⟨wf.drawn, wf.known⟩

theorem one_createNode (wf : WellFormed s) (one : OneNetworkNode s) (node : Node) (peer : Option PeerRef) :
    OneNetworkNode (Write.apply (.createNode s.nextNode node peer) s) := by
  have kept : ∀ ref id, s.nodePeer.get ref = some id →
      Tables.isNetworkNode (Write.apply (.createNode s.nextNode node peer) s) id = s.isNetworkNode id := by
    intro ref id row
    have other : id ≠ s.nextNode := fun same => wf.known ref id row (same ▸ wf.drawn _ le_rfl)
    exact (isNetworkNode_upsert s s.nextNode id node).trans (if_neg other)
  intro ref ref' a b same rowA rowB netA netB
  rw [kept ref a rowA] at netA
  rw [kept ref' b rowB] at netB
  exact one ref ref' a b same rowA rowB netA netB

theorem one_updateNode_iff (one : OneNetworkNode s) (id : Int) (node : Node) :
    OneNetworkNode (Write.apply (.updateNode id node) s) ↔ Permitted s (.updateNode id node) := by
  have net : ∀ x, Tables.isNetworkNode (Write.apply (.updateNode id node) s) x =
      if x = id then decide (node.role = .networkNode) else s.isNetworkNode x := fun x => isNetworkNode_upsert s id x node
  constructor
  · intro after network ref ref' b same row row' netB
    by_contra other
    refine other (after ref' ref b id same row' row ?_ ?_)
    · rwa [net, if_neg other]
    · rw [net, if_pos rfl]
      exact decide_eq_true network
  · intro permitted ref ref' a b same rowA rowB netA netB
    rw [net] at netA netB
    by_cases here : a = id
    · by_cases there : b = id
      · rw [here, there]
      · rw [if_pos here] at netA
        rw [if_neg there] at netB
        rw [here] at rowA ⊢
        exact (permitted (of_decide_eq_true netA) ref ref' b same.symm rowA rowB netB).symm
    · rw [if_neg here] at netA
      by_cases there : b = id
      · rw [if_pos there] at netB
        rw [there] at rowB ⊢
        exact permitted (of_decide_eq_true netB) ref' ref a same rowB rowA netA
      · rw [if_neg there] at netB
        exact one ref ref' a b same rowA rowB netA netB

theorem one_setNodePeer_iff (one : OneNetworkNode s) (ref : PeerRef) (id : Int) :
    OneNetworkNode (Write.apply (.setNodePeer ref id) s) ↔ Permitted s (.setNodePeer ref id) := by
  have row : ∀ ref', (Write.apply (.setNodePeer ref id) s).nodePeer.get ref' =
      if ref' = ref then some id else s.nodePeer.get ref' := fun ref' => KeyTable.get_upsert _ _ _ _
  constructor
  · intro after network ref' b same other rowB netB
    refine after ref' ref b id same ?_ ?_ netB network
    · rwa [row, if_neg other]
    · rw [row, if_pos rfl]
  · intro permitted r r' a b same rowA rowB netA netB
    rw [row] at rowA rowB
    by_cases here : r = ref
    · rw [if_pos here] at rowA
      obtain rfl := Option.some.inj rowA
      by_cases there : r' = ref
      · rw [if_pos there] at rowB
        exact Option.some.inj rowB
      · rw [if_neg there] at rowB
        exact (permitted netA r' b (by rw [← same, here]) there rowB netB).symm
    · rw [if_neg here] at rowA
      by_cases there : r' = ref
      · rw [if_pos there] at rowB
        obtain rfl := Option.some.inj rowB
        exact permitted netB r a (by rw [same, there]) here rowA netA
      · rw [if_neg there] at rowB
        exact one r r' a b same rowA rowB netA netB

/-- Exactly the permitted writes keep it. -/
theorem one_apply_iff (wf : WellFormed s) (one : OneNetworkNode s) (refers : Refers s w) :
    OneNetworkNode (w.apply s) ↔ Permitted s w := by
  cases w with
  | createNode id node peer =>
    obtain rfl : id = s.nextNode := refers
    exact iff_of_true (one_createNode wf one node peer) trivial
  | updateNode id node => exact one_updateNode_iff one id node
  | setNodePeer ref id => exact one_setNodePeer_iff one ref id
  | clearNodePeer ref =>
    refine iff_of_true (fun r r' a b same rowA rowB netA netB => ?_) trivial
    rw [Write.apply, KeyTable.get_delete] at rowA rowB
    split at rowA
    · cases rowA
    · split at rowB
      · cases rowB
      · exact one r r' a b same rowA rowB netA netB
  | _ => exact iff_of_true one trivial

end

section
variable {ok : Tables → Write → Prop} {P : Tables → Prop}

abbrev Triple {α : Type} (ok : Tables → Write → Prop) (P : Tables → Prop) (m : Request α) (Q : α → Tables → Prop) : Prop :=
  Steps.Triple Write.apply ok P m Q

/-- A lookup changes nothing. -/
theorem triple_attempt_read {α : Type} (f : Tables → Option α) :
    Triple ok P (Steps.attempt (Steps.read f)) fun _ => P :=
  fun _ start => ⟨trivial, fun _ _ => start⟩

theorem triple_otherOwner (works : Bool) (lookup : Tables → Option Int) :
    Triple ok P (otherOwner (Steps.read fun s => if works then some (lookup s) else none)) fun _ => P :=
  Steps.Triple.bind (triple_attempt_read _) fun _ => Steps.Triple.pure fun _ start => start

end

/-- The node is there; so it stays. -/
def There (id : Int) (s : Tables) : Prop := WellFormed s ∧ s.nodes.get id ≠ none

theorem There.apply {id : Int} {s : Tables} {w : Write} (there : There id s) (refers : Refers s w) : There id (w.apply s) := by
  refine ⟨there.1.apply refers, ?_⟩
  cases w with
  | createNode id' node peer | updateNode id' node => exact WellFormed.get_ne_none_upsert node there.2
  | _ => exact there.2

theorem refers_createNode (outcome : Outcome) (node : Node) (peer : Option PeerRef) :
    Triple Refers WellFormed (createNode outcome node peer) There := by
  refine Steps.Triple.insert (fun s w _ same => ?_) fun s w wf same => ?_
  · obtain rfl := Option.some.inj same
    exact rfl
  · obtain rfl := Option.some.inj same
    refine ⟨wf.apply rfl, ?_⟩
    rw [Write.apply, KeyTable.get_upsert_self]
    exact Option.some_ne_none _

theorem refers_pickNode (env : OwnerEnv) (nodeID : Int) (newName newKind : Text) :
    Triple Refers WellFormed (pickNode env nodeID newName newKind) There := by
  unfold pickNode
  split
  · exact refers_createNode _ _ _
  · refine Steps.Triple.bind (Steps.Triple.read fun node s found wf => ?_) fun _ => Steps.Triple.pure fun s there => there
    refine ⟨wf, fun none' => ?_⟩
    rw [none'] at found
    split at found <;> cases found

theorem refers_setNodePeer (outcome : Outcome) (ref : PeerRef) (id : Int) :
    Triple Refers (There id) (Steps.write outcome (.setNodePeer ref id)) fun _ => There id :=
  Steps.Triple.write (fun _ there => there.2) fun _ there => there.apply there.2

theorem refers_apiPeerSetNodeOwner (env : OwnerEnv) (ref : PeerRef) (nodeID : Int) (newName newKind : Text) :
    Triple Refers WellFormed (apiPeerSetNodeOwner env ref nodeID newName newKind) fun _ => WellFormed := by
  refine Steps.Triple.guard_bind fun _ => ?_
  split
  · exact Steps.Triple.write (fun _ _ => trivial) fun s wf => wf.apply trivial
  · refine Steps.Triple.bind (refers_pickNode env nodeID newName newKind) fun id => ?_
    refine Steps.Triple.bind (triple_otherOwner _ _) fun user => ?_
    refine Steps.Triple.guard_bind fun _ => ?_
    exact (refers_setNodePeer _ _ _).mono (fun _ there => there) fun _ _ there => there.1

theorem refers_makeNode (env : DecisionEnv) (ref : PeerRef) (d : DetectionDecision) :
    Triple Refers WellFormed (makeNode env ref d) fun _ => WellFormed := by
  refine Steps.Triple.bind (refers_createNode _ _ _) fun id => ?_
  refine Steps.Triple.bind (refers_setNodePeer _ _ _) fun _ => ?_
  refine Steps.Triple.call_bind ?_
  exact Steps.Triple.pure fun _ there => there.1

theorem refers_nodeOf (env : DecisionEnv) (ref : PeerRef) (d : DetectionDecision) :
    Triple Refers WellFormed (nodeOf env ref d) fun _ => WellFormed := by
  refine Steps.Triple.bind (Steps.Triple.read fun _ _ _ wf => wf) fun owner => ?_
  cases owner with
  | some id => exact Steps.Triple.pure fun _ wf => wf
  | none =>
    dsimp only
    split
    · exact Steps.Triple.pure fun _ wf => wf
    · exact Steps.Triple.bind (refers_makeNode env ref d) fun _ => Steps.Triple.pure fun _ wf => wf

theorem refers_createSubnets (db : CidrType) (outcome : Text → Outcome) (provider : Text) (known cidrs : List Text) :
    Triple Refers WellFormed (createSubnets db outcome provider known cidrs) fun _ => WellFormed := by
  induction cidrs generalizing known with
  | nil => exact Steps.Triple.pure fun _ wf => wf
  | cons cidr cidrs ih =>
    rw [createSubnets]
    split
    · exact ih known
    · refine Steps.Triple.bind (Steps.Triple.insert (Q := fun _ => WellFormed) (fun s w _ same => ?_) fun s w wf same => ?_)
        fun _ => ih _
      all_goals
        obtain ⟨net, -, accepted⟩ := Option.bind_eq_some_iff.mp same
        split at accepted
        case isFalse => cases accepted
        obtain rfl := Option.some.inj accepted
      · trivial
      · exact wf.apply trivial

theorem refers_enableMeshPairs (works : Text → Bool) (done sibs : List Text) :
    Triple Refers WellFormed (enableMeshPairs works done sibs) fun _ => WellFormed := by
  induction sibs generalizing done with
  | nil => exact Steps.Triple.pure fun _ wf => wf
  | cons sib sibs ih =>
    rw [enableMeshPairs]
    split
    · exact ih done
    · exact Steps.Triple.call_bind (ih _)

theorem refers_applyNetworks (db : CidrType) (provider : Text) (d : DetectionDecision) (env : DecisionEnv)
    (done : List Text × List Text) :
    Triple Refers WellFormed (applyNetworks db provider d env done) fun _ => WellFormed := by
  have rest : Triple Refers WellFormed (do
      let known ← createSubnets db env.createSubnet provider done.1 d.subnetsToCreate
      let meshed ← enableMeshPairs env.mesh done.2 d.meshWith
      return (known, meshed)) fun (_ : List Text × List Text) => WellFormed := by
    refine Steps.Triple.bind (refers_createSubnets _ _ _ _ _) fun known => ?_
    refine Steps.Triple.bind (refers_enableMeshPairs _ _ _) fun meshed => ?_
    exact Steps.Triple.pure fun _ wf => wf
  unfold applyNetworks
  split
  · exact Steps.Triple.call_bind rest
  · exact rest

theorem refers_applyDecision (db : CidrType) (provider : Text) (d : DetectionDecision) (env : DecisionEnv)
    (done : List Text × List Text) :
    Triple Refers WellFormed (applyDecision db provider d env done) fun _ => WellFormed := by
  have kept : Triple Refers WellFormed (pure done) fun (_ : List Text × List Text) => WellFormed :=
    Steps.Triple.pure fun _ wf => wf
  unfold applyDecision
  split
  · exact kept
  · exact kept
  · exact Steps.Triple.call_bind kept
  · exact Steps.Triple.call_bind kept
  · refine Steps.Triple.bind (refers_nodeOf env _ d) fun id => ?_
    cases id with
    | none => exact kept
    | some id => exact refers_applyNetworks db provider d env done

theorem refers_applyDecisions (db : CidrType) (provider : Text) (decisions : List (DetectionDecision × DecisionEnv))
    (done : List Text × List Text) :
    Triple Refers WellFormed (applyDecisions db provider decisions done) fun _ => WellFormed := by
  induction decisions generalizing done with
  | nil => exact Steps.Triple.pure fun _ wf => wf
  | cons decision decisions ih =>
    exact Steps.Triple.bind (refers_applyDecision db provider decision.1 decision.2 done) fun done => ih done

/-- Refers to a node that is there, and is permitted. -/
def Guarded (s : Tables) (w : Write) : Prop := Refers s w ∧ Permitted s w

theorem guarded_clearNodePeers (outcome : PeerRef → Outcome) (refs : List PeerRef) :
    Triple Guarded (fun _ => True) (clearNodePeers outcome refs) fun _ _ => True := by
  induction refs with
  | nil => exact Steps.Triple.pure fun _ _ => trivial
  | cons ref refs ih =>
    refine Steps.Triple.bind (Steps.Triple.attempt (fun _ _ _ _ => trivial)
      (Steps.Triple.write (Q := fun _ _ => True) (fun _ _ => ⟨trivial, trivial⟩) fun _ _ => trivial)) fun _ => ?_
    exact ih.mono (fun _ _ => trivial) fun _ _ _ => trivial

theorem permitted_of_free {s : Tables} {provider key : Text} {id : Int} (free : s.hasNetworkNodePeer provider id = false) :
    Permitted s (.setNodePeer (provider, key) id) := by
  intro _ ref b same _ row net
  by_contra other
  have found : s.hasNetworkNodePeer provider id = true := by
    refine List.any_eq_true.mpr ⟨(ref, b), KeyTable.get_eq_some_iff.mp row, ?_⟩
    simp [same, net, other]
  rw [free] at found
  cases found

/-- The check before an access is given makes up for the missing constraint. -/
theorem guarded_apiNodeAccessSet (env : AccessEnv) (id : Int) (provider : Text) (enabled : Bool) :
    Triple Guarded (fun _ => True) (apiNodeAccessSet env id provider enabled) fun _ _ => True := by
  refine Steps.Triple.read_bind fun node => ?_
  refine Steps.Triple.lift_bind fun type _ => ?_
  refine Steps.Triple.guard_bind fun _ => ?_
  have last : Triple Guarded (fun s => s.nodes.get id = some node ∧
        (node.role = .networkNode → s.hasNetworkNodePeer provider id = false)) (do
      Steps.guard type.autoProvisionable
      let pubkey ← Steps.lift env.provisioned
      Steps.write env.setNodePeer (.setNodePeer (provider, encodePeerID pubkey) id)
      Steps.guard env.download) fun _ _ => True := by
    refine Steps.Triple.guard_bind fun _ => ?_
    refine Steps.Triple.lift_bind fun pubkey _ => ?_
    refine Steps.Triple.bind (Steps.Triple.write (Q := fun _ _ => True) (fun s holds => ?_) fun _ _ => trivial)
      fun _ => Steps.Triple.guard fun _ _ _ => trivial
    refine ⟨by rw [Refers, holds.1]; exact Option.some_ne_none _, fun net => ?_⟩
    have role : node.role = .networkNode := by simpa [Tables.isNetworkNode, holds.1] using net
    exact permitted_of_free (holds.2 role) net
  have known : ∀ s : Tables, (True ∧ (if env.getNode then s.nodes.get id else none) = some node) → s.nodes.get id = some node := by
    rintro s ⟨-, found⟩
    split at found
    · exact found
    · cases found
  refine Steps.Triple.mono (P := fun s => s.nodes.get id = some node) ?_ known fun _ _ holds => holds
  split
  · -- revocation only clears rows
    refine Steps.Triple.bind (triple_attempt_read _) fun owned => ?_
    cases owned with
    | none => exact Steps.Triple.pure fun _ _ => trivial
    | some owned => exact (guarded_clearNodePeers _ _).mono (fun _ _ => trivial) fun _ _ _ => trivial
  · refine Steps.Triple.bind (triple_attempt_read _) fun owned => ?_
    split
    · exact Steps.Triple.pure fun _ _ => trivial
    · split
      · refine Steps.Triple.read_bind fun conflict => ?_
        refine Steps.Triple.guard_bind fun clear => ?_
        refine last.mono (fun s holds => ⟨holds.1, fun _ => ?_⟩) fun _ _ _ => trivial
        have read := holds.2
        split at read
        · rw [Option.some.inj read]
          simpa using clear
        · cases read
      · rename_i other
        exact last.mono (fun s holds => ⟨holds, fun role => absurd role other⟩) fun _ _ _ => trivial

inductive NodeOp
  | create (outcome : Outcome) (req : NodeWriteReq)
  | update (outcome : Outcome) (id : Int) (req : NodeWriteReq)
  | access (env : AccessEnv) (id : Int) (provider : Text) (enabled : Bool)
  | setNodeOwner (env : OwnerEnv) (ref : PeerRef) (nodeID : Int) (newName newKind : Text)
  | detect (db : CidrType) (listSubnets : Bool) (provider : Text) (decisions : List (DetectionDecision × DecisionEnv))

def NodeOp.request : NodeOp → Request Unit
  | create outcome req => apiNodesCreate outcome req
  | update outcome id req => apiNodesUpdate outcome id req
  | access env id provider enabled => apiNodeAccessSet env id provider enabled
  | setNodeOwner env ref nodeID newName newKind => apiPeerSetNodeOwner env ref nodeID newName newKind
  | detect db listSubnets provider decisions => applyNetworkDetection db listSubnets provider decisions

/-- A request that does not look for network nodes must meet none that is in its way;
one that gives access looks for itself. -/
def NodeOp.Allowed (s : Tables) (op : NodeOp) : Prop :=
  match op with
  | create _ _ | access _ _ _ _ => True
  | update _ _ _ | setNodeOwner _ _ _ _ _ | detect _ _ _ _ =>
    Run.Meets (fun s w => Write.apply w s) Permitted s (op.request.log Write.apply s)

theorem refers_request (op : NodeOp) : Triple Refers WellFormed op.request fun _ _ => True := by
  cases op with
  | create outcome req =>
    refine Steps.Triple.lift_bind fun node _ => ?_
    exact Steps.Triple.bind (refers_createNode _ _ _) fun _ => Steps.Triple.pure fun _ _ => trivial
  | update outcome id req =>
    refine Steps.Triple.lift_bind fun node _ => Steps.Triple.insert (fun s w _ same => ?_) fun _ _ _ _ => trivial
    obtain ⟨row, there, rfl⟩ := Option.map_eq_some_iff.mp same
    rw [Refers, there]
    exact Option.some_ne_none _
  | access env id provider enabled =>
    intro s _
    refine ⟨?_, fun _ _ => trivial⟩
    exact ((guarded_apiNodeAccessSet env id provider enabled) s trivial).1.imp (fun _ => True) (fun _ _ _ _ => trivial)
      (fun _ _ _ guarded => guarded.1) trivial
  | setNodeOwner env ref nodeID newName newKind =>
    exact (refers_apiPeerSetNodeOwner env ref nodeID newName newKind).mono (fun _ wf => wf) fun _ _ _ => trivial
  | detect db listSubnets provider decisions =>
    refine Steps.Triple.read_bind fun known => ?_
    exact (refers_applyDecisions db provider decisions _).mono (fun _ holds => holds.1) fun _ _ _ => trivial

/-- What the requests do not see to by themselves. -/
theorem allowed_iff (s : Tables) (op : NodeOp) :
    Run.Meets (fun s w => Write.apply w s) Permitted s (op.request.log Write.apply s) ↔ op.Allowed s := by
  cases op with
  | create outcome req =>
    refine iff_of_true ?_ trivial
    have made : Triple Permitted (fun _ => True) (apiNodesCreate outcome req) fun _ _ => True := by
      refine Steps.Triple.lift_bind fun node _ => Steps.Triple.bind (Q := fun _ _ => True) ?_ fun _ =>
        Steps.Triple.pure fun _ _ => trivial
      refine Steps.Triple.insert (fun s w _ same => ?_) fun _ _ _ _ => trivial
      obtain rfl := Option.some.inj same
      trivial
    exact (made s trivial).1
  | access env id provider enabled =>
    refine iff_of_true ?_ trivial
    exact ((guarded_apiNodeAccessSet env id provider enabled) s trivial).1.imp (fun _ => True) (fun _ _ _ _ => trivial)
      (fun _ _ _ guarded => guarded.2) trivial
  | update outcome id req => exact Iff.rfl
  | setNodeOwner env ref nodeID newName newKind => exact Iff.rfl
  | detect db listSubnets provider decisions => exact Iff.rfl

theorem refers_trace (s : Tables) (wf : WellFormed s) (ops : List NodeOp) :
    Run.Meets (fun s w => Write.apply w s) Refers s (Steps.trace Write.apply NodeOp.request s ops) := by
  induction ops generalizing s with
  | nil => trivial
  | cons op ops ih =>
    have here := (refers_request op s wf).1
    rw [Steps.trace, Run.Meets.append, ← Steps.exec_state]
    refine ⟨here, ih _ ?_⟩
    rw [Steps.exec_state]
    exact here.invariant WellFormed (fun _ _ wf refers => wf.apply refers) wf

/-- At every point of a sequence of requests at most one network node has peers on an
instance exactly if no new role, no owner that is set by hand and no detected router comes
in the way of one. -/
theorem one_network_node_iff (s : Tables) (wf : WellFormed s) (one : OneNetworkNode s) (ops : List NodeOp) :
    (∀ first, first <+: Steps.trace Write.apply NodeOp.request s ops →
        OneNetworkNode (Run.after (fun s w => Write.apply w s) s first)) ↔
      Run.Meets (fun s op => ((NodeOp.request op).exec Write.apply s).2) (fun s op => op.Allowed s) s ops := by
  have exact := Run.Meets.throughout_iff_beside (fun _ _ wf refers => WellFormed.apply wf refers)
    (fun _ _ wf one refers => one_apply_iff wf one refers) wf one (refers_trace s wf ops)
  rw [Steps.meets_trace_iff] at exact
  simp only [allowed_iff] at exact
  exact exact

def wgEnv (pubkey : Text) : AccessEnv := { reg := fun _ => some .wireguard, provisioned := some pubkey }

def routerReq (role : Text) : NodeWriteReq := ⟨"r".toList, "router".toList, role, []⟩

theorem one_network_node_sample :
    let ops : List NodeOp := [.create .ok (routerReq "network_node".toList), .access (wgEnv "k1".toList) 1 "srv:wg0".toList true,
      .create .ok (routerReq "network_node".toList), .access (wgEnv "k2".toList) 2 "srv:wg0".toList true]
    ∀ first, first <+: Steps.trace Write.apply NodeOp.request {} ops →
      OneNetworkNode (Run.after (fun s w => Write.apply w s) {} first) :=
  (one_network_node_iff {} ⟨fun _ _ => rfl, fun _ _ row => by cases row⟩ (fun _ _ _ _ _ row => by cases row) _).mpr
    ⟨trivial, trivial, trivial, trivial, trivial⟩

/-- Two routers found behind one instance are two network nodes on it. The same comes of
two members of it whose roles are changed. -/
theorem two_network_nodes :
    let apart (ops : List NodeOp) := ¬ OneNetworkNode
      (Run.after (fun s w => Write.apply w s) {} (Steps.trace Write.apply NodeOp.request {} ops))
    apart [.detect plainCidr true "srv:wg0".toList
        [({ peerID := "s.YQ".toList, action := .createNode, nodeName := "a".toList }, {}),
          ({ peerID := "s.Yg".toList, action := .createNode, nodeName := "b".toList }, {})]] ∧
      apart [.create .ok (routerReq "member".toList), .create .ok (routerReq "member".toList),
        .access (wgEnv "k1".toList) 1 "srv:wg0".toList true, .access (wgEnv "k2".toList) 2 "srv:wg0".toList true,
        .update .ok 1 (routerReq "network_node".toList), .update .ok 2 (routerReq "network_node".toList)] := by
  refine ⟨fun one => ?_, fun one => ?_⟩
  · have same := one ("srv:wg0".toList, "s.YQ".toList) ("srv:wg0".toList, "s.Yg".toList) 1 2 rfl (by decide +kernel)
      (by decide +kernel) (by decide +kernel) (by decide +kernel)
    exact absurd same (by decide)
  · have same := one ("srv:wg0".toList, encodePeerID "k1".toList) ("srv:wg0".toList, encodePeerID "k2".toList) 1 2 rfl
      (by decide +kernel) (by decide +kernel) (by decide +kernel) (by decide +kernel)
    exact absurd same (by decide)

end Protean.Network
