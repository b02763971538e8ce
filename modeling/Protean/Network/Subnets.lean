import Protean.Inet.RoundTrip
import Protean.Network.Handlers
import Protean.Vpn.Overlap

namespace Protean.Network
open Inet (IPNet parseCIDR)
open Vpn (Common)

structure SubnetCreateReq where
  cidr : Text
  ownerNodeID : Option Int := none
  newGroupName : Text := []
  deriving DecidableEq, Repr

/-- The tunnels of the interfaces, and how the steps of adding a subnet by hand go. -/
structure SubnetCreateEnv where
  tunnels : List Text := []
  listSubnets : Bool := true
  getNode : Bool := true
  group : Bool := true
  create : Outcome := .ok

def meshAddressSpace (env : SubnetCreateEnv) (db : CidrType) : Request (List Text) := do
  let known ← listAllSubnets env.listSubnets db
  return env.tunnels ++ known

/-- An owner that is named must be there. -/
def checkOwner (works : Bool) : Option Int → Request Unit
  | none => return ()
  | some id => do let _ ← getNode works id

/-- A group that is named is made. -/
def resolveGroupID (works : Bool) (newGroupName : Text) : Request Unit :=
  if Text.trimSpace newGroupName ≠ [] then Steps.call works else return ()

def apiSubnetsCreate (env : SubnetCreateEnv) (db : CidrType) (req : SubnetCreateReq) : Request Unit := do
  let cidr := Text.trimSpace req.cidr
  Steps.guard (parseCIDR cidr).isSome
  let existing ← meshAddressSpace env db
  Steps.guard (Vpn.checkNoOverlap cidr existing).isOk
  checkOwner env.getNode req.ownerNodeID
  resolveGroupID env.group req.newGroupName
  createSubnet env.create db [] cidr

def getSubnet (works : Bool) (id : Int) : Request Subnet := Steps.read fun s => if works then s.subnets.get id else none

structure SubnetDeleteEnv where
  getSubnet : Bool := true
  delete : Outcome := .ok

/-- The row is only read for the rule on the host. -/
def apiSubnetsDelete (env : SubnetDeleteEnv) (id : Int) : Request Unit := do
  let _ ← Steps.attempt (getSubnet env.getSubnet id)
  Steps.write env.delete (.deleteSubnet id)

/-- No address is in two subnets. -/
def Unambiguous (s : Tables) : Prop :=
  ∀ id id' a b, id ≠ id' → s.subnets.get id = some a → s.subnets.get id' = some b → ¬ Common a.cidr b.cidr

/-- The sequence is ahead of the ids. -/
def SubnetsDrawn (s : Tables) : Prop := ∀ id, s.nextSubnet ≤ id → s.subnets.get id = none

/-- A subnet is added that has no address in common with one that is there. -/
def Apart (s : Tables) : Write → Prop
  | .createSubnet subnet => ∀ id row, s.subnets.get id = some row → ¬ Common subnet.cidr row.cidr
  | _ => True

section
variable {s : Tables}

theorem common_comm {a b : IPNet} : Common a b ↔ Common b a := exists_congr fun _ => and_comm

theorem get_createSubnet (s : Tables) (subnet : Subnet) (id : Int) :
    (Write.apply (.createSubnet subnet) s).subnets.get id = if id = s.nextSubnet then some subnet else s.subnets.get id :=
  KeyTable.get_upsert _ _ _ _

theorem get_deleteSubnet (s : Tables) (id id' : Int) :
    (Write.apply (.deleteSubnet id) s).subnets.get id' = if id' = id then none else s.subnets.get id' :=
  KeyTable.get_delete _ _ _

/-- The mode of a row that is there, and nothing else. -/
theorem get_setSubnetNATMode (s : Tables) (id id' : Int) (mode : NATMode) :
    (Write.apply (.setSubnetNATMode id mode) s).subnets.get id' =
      (s.subnets.get id').map fun sn => if id' = id then { sn with natMode := mode } else sn := by
  dsimp only [Write.apply]
  by_cases same : id' = id
  · subst same
    cases found : s.subnets.get id' with
    | none => exact found
    | some sn => simp
  · cases s.subnets.get id with
    | none => simp [same]
    | some sn => simp [same, KeyTable.get_upsert]

theorem SubnetsDrawn.apply (drawn : SubnetsDrawn s) (w : Write) : SubnetsDrawn (w.apply s) := by
  cases w with
  | createSubnet subnet =>
    intro id above
    have later : s.nextSubnet < id := Int.lt_of_add_one_le above
    rw [get_createSubnet, if_neg later.ne']
    exact drawn id later.le
  | deleteSubnet id =>
    intro id' above
    rw [get_deleteSubnet]
    split
    · rfl
    · exact drawn id' above
  | setSubnetNATMode id mode =>
    intro id' above
    rw [get_setSubnetNATMode, drawn id' above]
    rfl
  | _ => exact drawn

theorem unambiguous_createSubnet_iff (drawn : SubnetsDrawn s) (clear : Unambiguous s) (subnet : Subnet) :
    Unambiguous (Write.apply (.createSubnet subnet) s) ↔ Apart s (.createSubnet subnet) := by
  have new : ∀ id row, s.subnets.get id = some row → id ≠ s.nextSubnet := by
    rintro id row found rfl
    cases (drawn _ le_rfl).symm.trans found
  constructor
  · intro after id row found
    refine after s.nextSubnet id subnet row (new id row found).symm ?_ ?_
    · rw [get_createSubnet, if_pos rfl]
    · rw [get_createSubnet, if_neg (new id row found)]
      exact found
  · intro apart id id' a b other here there
    rw [get_createSubnet] at here there
    split at here
    · rename_i own
      rw [if_neg fun same => other (own.trans same.symm)] at there
      rw [← Option.some.inj here]
      exact apart id' b there
    · split at there
      · rw [← Option.some.inj there, common_comm]
        exact apart id a here
      · exact clear id id' a b other here there

/-- Exactly such writes keep the catalog unambiguous. -/
theorem unambiguous_apply_iff (drawn : SubnetsDrawn s) (clear : Unambiguous s) (w : Write) :
    Unambiguous (w.apply s) ↔ Apart s w := by
  cases w with
  | createSubnet subnet => exact unambiguous_createSubnet_iff drawn clear subnet
  | deleteSubnet id =>
    refine iff_of_true (fun x x' a b other here there => ?_) trivial
    rw [get_deleteSubnet] at here there
    split at here
    · cases here
    · split at there
      · cases there
      · exact clear x x' a b other here there
  | setSubnetNATMode id mode =>
    refine iff_of_true (fun x x' a b other here there => ?_) trivial
    have cidr : ∀ y row, (Write.apply (.setSubnetNATMode id mode) s).subnets.get y = some row →
        ∃ old, s.subnets.get y = some old ∧ old.cidr = row.cidr := by
      intro y row found
      rw [get_setSubnetNATMode] at found
      obtain ⟨old, before, rfl⟩ := Option.map_eq_some_iff.mp found
      refine ⟨old, before, ?_⟩
      split <;> rfl
    obtain ⟨oldA, foundA, sameA⟩ := cidr x a here
    obtain ⟨oldB, foundB, sameB⟩ := cidr x' b there
    rw [← sameA, ← sameB]
    exact clear x x' oldA oldB other foundA foundB
  | _ => exact iff_of_true clear trivial

end

inductive SubnetOp
  | create (env : SubnetCreateEnv) (req : SubnetCreateReq)
  | detect (listSubnets : Bool) (provider : Text) (decisions : List (DetectionDecision × DecisionEnv))
  | delete (env : SubnetDeleteEnv) (id : Int)

def SubnetOp.request (db : CidrType) : SubnetOp → Request Unit
  | create env req => apiSubnetsCreate env db req
  | detect listSubnets provider decisions => applyNetworkDetection db listSubnets provider decisions
  | delete env id => apiSubnetsDelete env id

def SubnetOp.pool (db : CidrType) (ops : Nat → SubnetOp) (s : Tables) : Steps.Pool Tables Write Unit :=
  ⟨s, fun i => (ops i).request db, []⟩

/-- Only base addresses are compared. -/
def apartCheck (s : Tables) : Write → Bool
  | .createSubnet subnet => s.subnets.rows.all fun row => !Vpn.cidrOverlap subnet.cidr row.2.cidr
  | _ => true

theorem apartCheck_iff (s : Tables) (w : Write) : apartCheck s w = true ↔ Apart s w := by
  cases w with
  | createSubnet subnet =>
    simp only [apartCheck, Apart, List.all_eq_true, Prod.forall, KeyTable.get_eq_some_iff, Bool.not_eq_true', ← Vpn.cidrOverlap_iff,
      Bool.not_eq_true]
  | _ => exact iff_of_true rfl trivial

instance (s : Tables) (w : Write) : Decidable (Apart s w) := decidable_of_iff _ (apartCheck_iff s w)

def lan (cidr : Text) : SubnetOp := .create {} { cidr := cidr }

/-- What both the database and the panel read is the same addresses to them. -/
structure CidrType.Agrees (db : CidrType) : Prop where
  read : ∀ t a n n', parseCIDR t = some (a, n) → db.read t = some n' → ∀ addr, n'.contains addr = n.contains addr
  text : ∀ t n, db.read t = some n → ∃ a n', parseCIDR (db.text n) = some (a, n') ∧ ∀ addr, n'.contains addr = n.contains addr

theorem agrees_plainCidr : plainCidr.Agrees := by
  refine ⟨fun t a n n' read stored addr => ?_, fun t n stored => ?_⟩
  · obtain ⟨⟨a', n''⟩, read', rfl⟩ := Option.map_eq_some_iff.mp stored
    cases read.symm.trans read'
    rfl
  · obtain ⟨⟨a, n⟩, read, rfl⟩ := Option.map_eq_some_iff.mp stored
    refine ⟨_, n.to4, Inet.parseCIDR_toText read, fun addr => ?_⟩
    rw [Bool.eq_iff_iff, IPNet.contains_iff, IPNet.contains_iff, IPNet.to4_to4, IPNet.to4_addr, Inet.Addr.to4_to4]

/-- The subnets were read by the database. -/
def Readable (db : CidrType) (s : Tables) : Prop := ∀ id row, s.subnets.get id = some row → ∃ t, db.read t = some row.cidr

/-- A write that keeps the catalog as it should be. -/
def Keeps (db : CidrType) (s : Tables) (w : Write) : Prop :=
  Apart s w ∧ ∀ subnet, w = .createSubnet subnet → ∃ t, db.read t = some subnet.cidr

section
variable {db : CidrType} {s : Tables} {w : Write}

theorem Readable.apply (readable : Readable db s) (keeps : Keeps db s w) : Readable db (w.apply s) := by
  cases w with
  | createSubnet subnet =>
    intro id row found
    rw [get_createSubnet] at found
    split at found
    · rw [← Option.some.inj found]
      exact keeps.2 subnet rfl
    · exact readable id row found
  | deleteSubnet id =>
    intro id' row found
    rw [get_deleteSubnet] at found
    split at found
    · cases found
    · exact readable id' row found
  | setSubnetNATMode id mode =>
    intro id' row found
    rw [get_setSubnetNATMode] at found
    obtain ⟨old, before, rfl⟩ := Option.map_eq_some_iff.mp found
    obtain ⟨t, read⟩ := readable id' old before
    refine ⟨t, read.trans (congrArg some ?_)⟩
    split <;> rfl
  | _ => exact readable

theorem common_congr {a a' b b' : IPNet} (sameA : ∀ addr, a.contains addr = a'.contains addr)
    (sameB : ∀ addr, b.contains addr = b'.contains addr) : Common a b ↔ Common a' b' := by
  simp only [Common, sameA, sameB]

theorem checkNoOverlap_isOk {cidr : Text} {a : Inet.Addr} {net : IPNet} (read : parseCIDR cidr = some (a, net)) (existing : List Text) :
    (Vpn.checkNoOverlap cidr existing).isOk = true ↔
      ∀ e ∈ existing, ∀ addr exNet, parseCIDR e = some (addr, exNet) → ¬ Common net exNet := by
  rw [← Vpn.firstOverlap_eq_none_iff, Vpn.checkNoOverlap, read]
  dsimp only
  cases Vpn.firstOverlap net existing <;> simp [Except.isOk, Except.toBool]

/-- A request that is not overtaken adds no subnet that has an address in common with
another one. -/
theorem keeps_apiSubnetsCreate (agrees : db.Agrees) (env : SubnetCreateEnv) (req : SubnetCreateReq) :
    Steps.Triple Write.apply (Keeps db) (Readable db) (apiSubnetsCreate env db req) fun _ _ => True := by
  refine Steps.Triple.guard_bind fun parsed => ?_
  obtain ⟨⟨a, net⟩, read⟩ := Option.isSome_iff_exists.mp parsed
  have space : Steps.Triple Write.apply (Keeps db) (Readable db) (meshAddressSpace env db) fun existing s =>
      Readable db s ∧ ∀ id row, s.subnets.get id = some row → db.text row.cidr ∈ existing := by
    refine Steps.Triple.read_bind fun known => Steps.Triple.pure fun s holds => ⟨holds.1, fun id row found => ?_⟩
    obtain ⟨-, listed⟩ := holds
    split at listed
    · rw [← Option.some.inj listed]
      exact List.mem_append_right _ (List.mem_map_of_mem (KeyTable.get_eq_some_iff.mp found))
    · cases listed
  refine Steps.Triple.bind space fun existing => Steps.Triple.guard_bind fun free => ?_
  rw [checkNoOverlap_isOk read] at free
  -- what the check has found is true until the row is added, for the steps between only read
  let Free (s : Tables) : Prop := ∀ id row, s.subnets.get id = some row → ¬ Common net row.cidr
  have start : ∀ s, Readable db s ∧ (∀ id row, s.subnets.get id = some row → db.text row.cidr ∈ existing) → Free s := by
    rintro s ⟨readable, listed⟩ id row found
    obtain ⟨t, stored⟩ := readable id row found
    obtain ⟨a', n', back, same⟩ := agrees.text t row.cidr stored
    rw [← common_congr (fun _ => rfl) same]
    exact free _ (listed id row found) a' n' back
  refine Steps.Triple.mono (P := Free) ?_ start fun _ _ holds => holds
  have owner : Steps.Triple Write.apply (Keeps db) Free (checkOwner env.getNode req.ownerNodeID) fun _ => Free := by
    cases req.ownerNodeID with
    | none => exact Steps.Triple.pure fun _ holds => holds
    | some id => exact Steps.Triple.read_bind fun _ => Steps.Triple.pure fun _ holds => holds.1
  have group : Steps.Triple Write.apply (Keeps db) Free (resolveGroupID env.group req.newGroupName) fun _ => Free := by
    unfold resolveGroupID
    split
    · exact Steps.Triple.call fun _ _ holds => holds
    · exact Steps.Triple.pure fun _ holds => holds
  refine Steps.Triple.bind owner fun _ => Steps.Triple.bind group fun _ => Steps.Triple.insert (fun s w holds made => ?_)
    fun _ _ _ _ => trivial
  obtain ⟨net', stored, made⟩ := Option.bind_eq_some_iff.mp made
  split at made
  · obtain rfl := Option.some.inj made
    refine ⟨fun id row found => ?_, fun subnet same => ⟨Text.trimSpace req.cidr, ?_⟩⟩
    · rw [common_congr (agrees.read _ a net net' read stored) fun _ => rfl]
      exact holds id row found
    · cases same
      exact stored
  · cases made

theorem keeps_apiSubnetsDelete (env : SubnetDeleteEnv) (id : Int) :
    Steps.Triple Write.apply (Keeps db) (fun _ => True) (apiSubnetsDelete env id) fun _ _ => True := by
  refine Steps.Triple.bind (Q := fun _ _ => True) (fun _ _ => ⟨trivial, fun _ _ => trivial⟩) fun _ => ?_
  exact Steps.Triple.write (fun _ _ => ⟨trivial, fun subnet same => by cases same⟩) fun _ _ => trivial

end

/-- Made one after the other, requests by hand keep the catalog unambiguous. -/
theorem unambiguous_of_manual {db : CidrType} (agrees : db.Agrees) (s : Tables) (drawn : SubnetsDrawn s) (clear : Unambiguous s)
    (readable : Readable db s) (ops : List SubnetOp) (manual : ∀ op ∈ ops, ∀ l p d, op ≠ .detect l p d) :
    ∀ first, first <+: Steps.trace Write.apply (SubnetOp.request db) s ops →
      Unambiguous (Run.after (fun s w => Write.apply w s) s first) := by
  intro first part
  have keep : ∀ s w, SubnetsDrawn s ∧ Unambiguous s ∧ Readable db s → Keeps db s w →
      SubnetsDrawn (Write.apply w s) ∧ Unambiguous (w.apply s) ∧ Readable db (w.apply s) := by
    rintro s w ⟨drawn, clear, readable⟩ keeps
    exact ⟨drawn.apply w, (unambiguous_apply_iff drawn clear w).mpr keeps.1, readable.apply keeps⟩
  refine (Steps.Triple.throughout keep (fun op member => ?_) ⟨drawn, clear, readable⟩ part).2.1
  cases op with
  | create env req => exact (keeps_apiSubnetsCreate agrees env req).mono (fun _ holds => holds.2.2) fun _ _ _ => trivial
  | detect l p d => exact absurd rfl (manual _ member l p d)
  | delete env id => exact (keeps_apiSubnetsDelete env id).mono (fun _ _ => trivial) fun _ _ _ => trivial

theorem unambiguous_of_manual_sample :
    let ops := [lan "10.0.0.0/8".toList, lan "10.1.0.0/16".toList, .delete {} 1, lan "10.1.0.0/16".toList]
    Unambiguous (Run.after (fun s w => Write.apply w s) {} (Steps.trace Write.apply (SubnetOp.request plainCidr) {} ops)) :=
  unambiguous_of_manual agrees_plainCidr {} (fun _ _ => rfl) (fun _ _ _ _ _ => nofun) (fun _ _ => nofun) _ (by simp [lan]) _
    List.prefix_rfl

end Protean.Network
