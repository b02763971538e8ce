import Protean.Network.Handlers

namespace Protean.Network
open Access (PeerRef ProviderType RequestStatus)

/-- No peer has owners of both kinds. -/
def Exclusive (s : Tables) : Prop := ∀ ref, s.peerOwner.get ref = none ∨ s.nodePeer.get ref = none

/-- An owner is set where there is none of the other kind. -/
def Spares (s : Tables) : Write → Prop
  | .setPeerOwner ref _ => s.nodePeer.get ref = none
  | .setNodePeer ref _ => s.peerOwner.get ref = none
  | _ => True

/-- Exactly such writes keep the two kinds apart. -/
theorem exclusive_apply_iff (s : Tables) (w : Write) (apart : Exclusive s) : Exclusive (w.apply s) ↔ Spares s w := by
  cases w with
  | setPeerOwner ref user =>
    have row : ∀ ref', (Write.apply (.setPeerOwner ref user) s).peerOwner.get ref' =
        if ref' = ref then some user else s.peerOwner.get ref' := fun ref' => KeyTable.get_upsert _ _ _ _
    constructor
    · intro after
      have here := after ref
      rw [row, if_pos rfl] at here
      exact here.resolve_left (Option.some_ne_none _)
    · intro spared ref'
      by_cases same : ref' = ref
      · exact .inr (same ▸ spared)
      · rw [row, if_neg same]
        exact apart ref'
  | setNodePeer ref id =>
    have row : ∀ ref', (Write.apply (.setNodePeer ref id) s).nodePeer.get ref' =
        if ref' = ref then some id else s.nodePeer.get ref' := fun ref' => KeyTable.get_upsert _ _ _ _
    constructor
    · intro after
      have here := after ref
      rw [row, if_pos rfl] at here
      exact here.resolve_right (Option.some_ne_none _)
    · intro spared ref'
      by_cases same : ref' = ref
      · exact .inl (same ▸ spared)
      · rw [row, if_neg same]
        exact apart ref'
  | clearNodePeer ref =>
    refine iff_of_true (fun ref' => (apart ref').imp_right fun none' => ?_) trivial
    rw [Write.apply, KeyTable.get_delete]
    split
    · rfl
    · exact none'
  | clearPeerOwner ref =>
    refine iff_of_true (fun ref' => (apart ref').imp_left fun none' => ?_) trivial
    rw [Write.apply, KeyTable.get_delete]
    split
    · rfl
    · exact none'
  | _ => exact iff_of_true apart trivial

/-- The requests that set owners. -/
inductive OwnerOp
  | setOwner (env : OwnerEnv) (ref : PeerRef) (user : Int)
  | setNodeOwner (env : OwnerEnv) (ref : PeerRef) (nodeID : Int) (newName newKind : Text)
  | autoGrant (env : GrantEnv) (provider : Text) (user : Int)
  | link (env : GrantEnv) (provider pubkey : Text)
  | access (env : AccessEnv) (id : Int) (provider : Text) (enabled : Bool)
  | detect (db : CidrType) (listSubnets : Bool) (provider : Text) (decisions : List (DetectionDecision × DecisionEnv))

def OwnerOp.request : OwnerOp → Request Unit
  | setOwner env ref user => apiPeerSetOwner env ref user
  | setNodeOwner env ref nodeID newName newKind => apiPeerSetNodeOwner env ref nodeID newName newKind
  | autoGrant env provider user => autoProvisionAndGrant env provider user
  | link env provider pubkey => linkPeerToAccessRequest env provider pubkey
  | access env id provider enabled => apiNodeAccessSet env id provider enabled
  | detect db listSubnets provider decisions => applyNetworkDetection db listSubnets provider decisions

def OwnerOp.pool (ops : Nat → OwnerOp) (s : Tables) : Steps.Pool Tables Write Unit := ⟨s, fun i => (ops i).request, []⟩

def phone : PeerRef := ("srv:wg0".toList, "s.YQ".toList)

/-- A node that is there before. -/
def oneNode : Tables := Write.apply (.createNode 1 ⟨"r".toList, .router, .member, []⟩ none) {}

/-- What a lookup that works has found is known until the next write. -/
theorem triple_otherOwner_works {ok : Tables → Write → Prop} (lookup : Tables → Option Int) :
    Steps.Triple Write.apply ok (fun _ => True) (otherOwner (Steps.read fun s => if true then some (lookup s) else none))
      fun o s => lookup s = o :=
  fun _ _ => ⟨trivial, fun _ same => Option.some.inj same⟩

/-- A request that looks, can read and is not overtaken sets no second kind of owner. -/
theorem spares_apiPeerSetOwner {env : OwnerEnv} (works : env.getOther = true) (ref : PeerRef) (user : Int) :
    Steps.Triple Write.apply Spares (fun _ => True) (apiPeerSetOwner env ref user) fun _ _ => True := by
  refine Steps.Triple.guard_bind fun _ => ?_
  split
  · exact Steps.Triple.write (fun _ _ => trivial) fun _ _ => trivial
  · refine Steps.Triple.lift_bind fun portal _ => Steps.Triple.guard_bind fun _ => ?_
    rw [works]
    refine Steps.Triple.bind (triple_otherOwner_works _) fun node => Steps.Triple.guard_bind fun free => ?_
    exact Steps.Triple.write (fun s found => found.trans (Option.isNone_iff_eq_none.mp free)) fun _ _ => trivial

theorem spares_apiPeerSetNodeOwner {env : OwnerEnv} (works : env.getOther = true) (ref : PeerRef) (nodeID : Int)
    (newName newKind : Text) :
    Steps.Triple Write.apply Spares (fun _ => True) (apiPeerSetNodeOwner env ref nodeID newName newKind) fun _ _ => True := by
  refine Steps.Triple.guard_bind fun _ => ?_
  split
  · exact Steps.Triple.write (fun _ _ => trivial) fun _ _ => trivial
  · have picked : Steps.Triple Write.apply Spares (fun _ => True) (pickNode env nodeID newName newKind) fun _ _ => True := by
      unfold pickNode
      split
      · refine Steps.Triple.insert (fun s w _ same => ?_) fun _ _ _ _ => trivial
        obtain rfl := Option.some.inj same
        trivial
      · exact Steps.Triple.read_bind fun _ => Steps.Triple.pure fun _ _ => trivial
    refine Steps.Triple.bind picked fun id => ?_
    rw [works]
    refine Steps.Triple.bind (triple_otherOwner_works _) fun user => Steps.Triple.guard_bind fun free => ?_
    exact Steps.Triple.write (fun s found => found.trans (Option.isNone_iff_eq_none.mp free)) fun _ _ => trivial

/-- An owner is set by hand, with a lookup that works. -/
def OwnerOp.Looks : OwnerOp → Prop
  | setOwner env .. | setNodeOwner env .. => env.getOther = true
  | _ => False

/-- One after the other, such requests never give a peer both kinds of owner. -/
theorem exclusive_of_looks {s : Tables} (apart : Exclusive s) {ops : List OwnerOp} (looks : ∀ op ∈ ops, op.Looks) :
    ∀ first, first <+: Steps.trace Write.apply OwnerOp.request s ops →
      Exclusive (Run.after (fun s w => Write.apply w s) s first) := by
  intro first part
  refine Steps.Triple.throughout (fun s w apart => (exclusive_apply_iff s w apart).mpr) (fun op member => ?_) apart part
  have works := looks op member
  cases op with
  | setOwner env ref user => exact (spares_apiPeerSetOwner works ref user).mono (fun _ _ => trivial) fun _ _ _ => trivial
  | setNodeOwner env ref nodeID newName newKind =>
    exact (spares_apiPeerSetNodeOwner works ref nodeID newName newKind).mono (fun _ _ => trivial) fun _ _ _ => trivial
  | _ => exact works.elim

theorem exclusive_of_looks_sample :
    let ops : List OwnerOp := [.setOwner {} phone 7, .setNodeOwner {} phone 1 [] [], .setOwner {} phone 0]
    Exclusive (Run.after (fun s w => Write.apply w s) oneNode (Steps.trace Write.apply OwnerOp.request oneNode ops)) :=
  exclusive_of_looks (fun _ => .inl rfl) (by simp [OwnerOp.Looks]) _ List.prefix_rfl

end Protean.Network
