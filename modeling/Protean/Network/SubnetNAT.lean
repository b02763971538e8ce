import Protean.Network.Subnets
import Protean.PeerForward.Sync

namespace Protean.Network
open PeerForward (validCidr)

def NATMode.parse (t : Text) : Option NATMode :=
  if t = "passthrough".toList then some passthrough else if t = "masquerade".toList then some masquerade else none

/-- A rule of `POSTROUTING` in the `nat` table. One with the comment of this feature
masquerades what comes from a network, but not what leaves by the interface it excepts. -/
inductive NatRule
  | subnet (cidr : Text) (notOut : Option Text)
  | other (spec : Text)
  deriving DecidableEq, Repr

inductive NatAction
  | add
  | del
  deriving DecidableEq, Repr

/-- The interface of the default route, empty if there is none, and the chain. -/
structure Host where
  wan : Text
  chain : List NatRule
  deriving DecidableEq, Repr

/-- `-C ... || -A ...`. -/
def Host.ensure (h : Host) (rule : NatRule) : Host := if rule ∈ h.chain then h else { h with chain := h.chain ++ [rule] }

/-- `-D ... || true`. -/
def Host.remove (h : Host) (rule : NatRule) : Host := { h with chain := h.chain.erase rule }

def cmdSubnetNat (action : NatAction) (cidr : Text) (h : Host) : Host :=
  match action with
  | .add => if h.wan ≠ [] then h.ensure (.subnet cidr (some h.wan)) else h.ensure (.subnet cidr none)
  | .del =>
    -- without a name of an interface the first command is in error, and nothing is removed
    (if h.wan ≠ [] then h.remove (.subnet cidr (some h.wan)) else h).remove (.subnet cidr none)

/-- The store, the hosts of the servers, and which servers have an installer: those that
are enabled. -/
structure Site where
  tables : Tables
  hosts : Text → Host
  installer : Text → Bool

def serverOf (providerKey : Text) : Text := ((Text.cut ':' providerKey).map (·.1)).getD []

def Site.onHost (s : Site) (server : Text) (f : Host → Host) : Site :=
  { s with hosts := Function.update s.hosts server (f (s.hosts server)) }

def store {α : Type} (m : Request α) : Proc Site α :=
  Proc.zoom Site.tables (fun t s => { s with tables := t }) ⟨m.exec Write.apply⟩

def subnetNAT (outcome : Outcome) (action : NatAction) (cidr server : Text) : Proc Site Unit := do
  Proc.guard (validCidr.accepts cidr)
  Proc.write outcome fun s => s.onHost server (cmdSubnetNat action cidr)

/-- The host of a server without an installer is passed over. -/
def applyNAT (outcome : Outcome) (action : NatAction) (db : CidrType) (sn : Subnet) : Proc Site Unit := do
  let reached ← Proc.read fun s => some (s.installer (serverOf sn.provider))
  Proc.when reached (subnetNAT outcome action (db.text sn.cidr) (serverOf sn.provider))

/-- The row must be there. -/
def setSubnetNATMode (outcome : Outcome) (id : Int) (mode : NATMode) : Request Unit :=
  Steps.insert outcome (fun s => (s.subnets.get id).map fun _ => .setSubnetNATMode id mode) fun _ => ()

structure NatEnv where
  getSubnet : Bool := true
  host : Outcome := .ok
  write : Outcome := .ok

def Site.apiSubnetsUpdateNAT (env : NatEnv) (db : CidrType) (id : Int) (mode : Text) : Proc Site Unit := do
  let mode ← Proc.lift (NATMode.parse mode)
  let sn ← store (getSubnet env.getSubnet id)
  Proc.guard !(mode = .masquerade && sn.provider = [])
  Proc.when (mode ≠ sn.natMode) (applyNAT env.host (if mode = .masquerade then .add else .del) db sn)
  store (setSubnetNATMode env.write id mode)

/-- A rule that cannot be removed is only logged. -/
def teardown (env : NatEnv) (db : CidrType) : Option Subnet → Proc Site Unit
  | none => return ()
  | some sn => Proc.when (sn.natMode = .masquerade && sn.provider ≠ []) do
    let _ ← Proc.attempt (applyNAT env.host .del db sn)

def Site.apiSubnetsDelete (env : NatEnv) (db : CidrType) (id : Int) : Proc Site Unit := do
  let sn ← Proc.attempt (store (getSubnet env.getSubnet id))
  teardown env db sn
  store (Steps.write env.write (.deleteSubnet id))

inductive NatEvent
  | update (env : NatEnv) (id : Int) (mode : Text)
  | delete (env : NatEnv) (id : Int)
  | route (server wan : Text)
  | enable (server : Text) (enabled : Bool)

/-- The command on the host, if one is given, succeeds. -/
def NatEvent.HostWorks : NatEvent → Prop
  | update env _ _ | delete env _ => env.host = .ok
  | route _ _ | enable _ _ => True

def NatEvent.step (db : CidrType) (s : Site) : NatEvent → Site
  | update env id mode => ((Site.apiSubnetsUpdateNAT env db id mode).exec s).2
  | delete env id => ((Site.apiSubnetsDelete env db id).exec s).2
  | route server wan => s.onHost server fun h => { h with wan := wan }
  | enable server enabled => { s with installer := Function.update s.installer server enabled }

/-- A request that reports success. -/
def NatEvent.succeeds (db : CidrType) (s : Site) : NatEvent → Bool
  | update env id mode => ((Site.apiSubnetsUpdateNAT env db id mode).exec s).1.isSome
  | delete env id => ((Site.apiSubnetsDelete env db id).exec s).1.isSome
  | route _ _ | enable _ _ => false

def Host.HasRule (h : Host) (cidr : Text) : Prop := ∃ notOut, .subnet cidr notOut ∈ h.chain

def Masqueraded (db : CidrType) (t : Tables) (server cidr : Text) : Prop :=
  ∃ id sn, t.subnets.get id = some sn ∧ sn.natMode = .masquerade ∧ serverOf sn.provider = server ∧ db.text sn.cidr = cidr

/-- Whether a host has a rule for a network goes by the stored mode. -/
def Site.AgreesOn (db : CidrType) (s : Site) (server cidr : Text) : Prop :=
  (s.hosts server).HasRule cidr ↔ Masqueraded db s.tables server cidr

/-- So it is for every IPv4 network. -/
def Site.Faithful (db : CidrType) (s : Site) : Prop :=
  ∀ server cidr, validCidr.accepts cidr = true → s.AgreesOn db server cidr

/-- Each rule for the network is there once, and excepts the present interface or none. -/
def Host.Removable (h : Host) (cidr : Text) : Prop :=
  ∀ notOut, .subnet cidr notOut ∈ h.chain →
    (notOut = none ∨ h.wan ≠ [] ∧ notOut = some h.wan) ∧ h.chain.count (.subnet cidr notOut) = 1

section
variable {h : Host} {cidr : Text}

theorem hasRule_ensure (h : Host) (cidr cidr' : Text) (notOut : Option Text) :
    (h.ensure (.subnet cidr notOut)).HasRule cidr' ↔ cidr' = cidr ∨ h.HasRule cidr' := by
  unfold Host.ensure Host.HasRule
  split
  · rename_i there
    refine (or_iff_right_of_imp ?_).symm
    rintro rfl
    exact ⟨notOut, there⟩
  · constructor
    · rintro ⟨out, listed⟩
      rcases List.mem_append.mp listed with before | last
      · exact .inr ⟨out, before⟩
      · cases List.mem_singleton.mp last
        exact .inl rfl
    · rintro (rfl | ⟨out, listed⟩)
      · exact ⟨notOut, List.mem_append_right _ (List.mem_singleton_self _)⟩
      · exact ⟨out, List.mem_append_left _ listed⟩

theorem hasRule_add (h : Host) (cidr cidr' : Text) :
    (cmdSubnetNat .add cidr h).HasRule cidr' ↔ cidr' = cidr ∨ h.HasRule cidr' := by
  unfold cmdSubnetNat
  dsimp only
  split <;> exact hasRule_ensure _ _ _ _

theorem count_del (h : Host) (cidr : Text) (rule : NatRule) :
    (cmdSubnetNat .del cidr h).chain.count rule = h.chain.count rule -
      (if h.wan ≠ [] ∧ rule = .subnet cidr (some h.wan) then 1 else 0) - if rule = .subnet cidr none then 1 else 0 := by
  have erased : ∀ (chain : List NatRule) (r : NatRule), (chain.erase r).count rule = chain.count rule - if rule = r then 1 else 0 := by
    intro chain r
    rw [List.count_erase]
    by_cases same : rule = r
    · rw [if_pos same, if_pos (beq_iff_eq.mpr same.symm)]
    · rw [if_neg same, if_neg fun eq => same (beq_iff_eq.mp eq).symm]
  unfold cmdSubnetNat Host.remove
  dsimp only
  rw [erased]
  by_cases named : h.wan ≠ []
  · rw [if_pos named, erased]
    simp only [named, ne_eq, not_false_eq_true, true_and]
  · rw [if_neg named]
    simp only [named, false_and, if_false, Nat.sub_zero]

/-- What is removed is at most one rule of each of two kinds. -/
theorem hasRule_del (h : Host) (cidr : Text) : (cmdSubnetNat .del cidr h).HasRule cidr ↔ ¬ h.Removable cidr := by
  unfold Host.HasRule Host.Removable
  rw [not_forall]
  refine exists_congr fun notOut => ?_
  rw [← List.count_pos_iff, ← List.count_pos_iff, count_del]
  simp only [NatRule.subnet.injEq, true_and]
  generalize h.chain.count (.subnet cidr notOut) = n
  by_cases plain : notOut = none
  · have other : ¬ (h.wan ≠ [] ∧ notOut = some h.wan) := by
      rintro ⟨-, same⟩
      cases plain.symm.trans same
    rw [if_neg other, if_pos plain, and_iff_right (.inl plain)]
    omega
  · rw [if_neg plain, or_iff_right plain]
    by_cases own : h.wan ≠ [] ∧ notOut = some h.wan
    · rw [if_pos own, and_iff_right own]
      omega
    · rw [if_neg own]
      simp only [own, false_and, imp_false, not_not, Nat.sub_zero]

theorem hasRule_del_of_ne (h : Host) {cidr cidr' : Text} (other : cidr' ≠ cidr) :
    (cmdSubnetNat .del cidr h).HasRule cidr' ↔ h.HasRule cidr' := by
  refine exists_congr fun notOut => ?_
  rw [← List.count_pos_iff, ← List.count_pos_iff, count_del]
  simp [other]

end

/-- The command that a request gives, if it does. -/
def Site.act (s : Site) (sn : Subnet) (db : CidrType) : Option NatAction → Site
  | none => s
  | some action => s.onHost (serverOf sn.provider) (cmdSubnetNat action (db.text sn.cidr))

def Site.updateAction (s : Site) (sn : Subnet) (mode : NATMode) : Option NatAction :=
  if mode ≠ sn.natMode ∧ s.installer (serverOf sn.provider) = true then some (if mode = .masquerade then .add else .del) else none

def Site.deleteAction (s : Site) (env : NatEnv) (db : CidrType) (sn : Subnet) : Option NatAction :=
  if env.getSubnet = true ∧ sn.natMode = .masquerade ∧ sn.provider ≠ [] ∧ s.installer (serverOf sn.provider) = true ∧
      validCidr.accepts (db.text sn.cidr) = true then some .del else none

/-- Whether there is a rule for the network after its command. -/
def Host.HasRuleAfter (h : Host) (cidr : Text) : Option NatAction → Prop
  | none => h.HasRule cidr
  | some .add => True
  | some .del => ¬ h.Removable cidr

/-- The command that fits `wanted`, or its absence, leaves a rule exactly if it is wanted. -/
def Host.Suits (h : Host) (cidr : Text) (wanted : Prop) : Option NatAction → Prop
  | none => h.HasRule cidr ↔ wanted
  | some .add => True
  | some .del => h.Removable cidr

/-- What a command has to meet for the host to go by `wanted` from then on: the others go by
their modes, and this network already did, or a rule is added, or all of its rules are
removed. -/
structure Site.Settled (db : CidrType) (s : Site) (sn : Subnet) (wanted : Prop) (action : Option NatAction) : Prop where
  others : ∀ server cidr, validCidr.accepts cidr = true → ¬ (server = serverOf sn.provider ∧ cidr = db.text sn.cidr) →
    s.AgreesOn db server cidr
  own : validCidr.accepts (db.text sn.cidr) = true → (s.hosts (serverOf sn.provider)).Suits (db.text sn.cidr) wanted action

/-- The networks of the catalog have different texts. -/
def TextsDiffer (db : CidrType) (t : Tables) : Prop :=
  ∀ id id' a b, t.subnets.get id = some a → t.subnets.get id' = some b → db.text a.cidr = db.text b.cidr → id = id'

section
variable {db : CidrType} {s : Site} {sn : Subnet} {id : Int}

theorem hasRule_act (s : Site) (sn : Subnet) (db : CidrType) (action : Option NatAction) (server cidr : Text) :
    (((s.act sn db action).hosts server).HasRule cidr) ↔
      if server = serverOf sn.provider ∧ cidr = db.text sn.cidr then (s.hosts server).HasRuleAfter cidr action
      else (s.hosts server).HasRule cidr := by
  have here : ∀ f : Host → Host, (s.onHost (serverOf sn.provider) f).hosts (serverOf sn.provider) = f (s.hosts (serverOf sn.provider)) :=
    fun f => Function.update_self _ _ _
  cases action with
  | none => simp [Site.act, Host.HasRuleAfter]
  | some action =>
    unfold Site.act
    by_cases same : server = serverOf sn.provider
    · subst same
      dsimp only
      rw [here]
      by_cases own : cidr = db.text sn.cidr
      · subst own
        rw [if_pos ⟨rfl, rfl⟩]
        cases action with
        | add => exact iff_of_true ((hasRule_add _ _ _).mpr (.inl rfl)) trivial
        | del => exact hasRule_del _ _
      · rw [if_neg fun both => own both.2]
        cases action with
        | add => rw [hasRule_add, or_iff_right own]
        | del => exact hasRule_del_of_ne _ own
    · rw [if_neg fun both => same both.1]
      have away : (s.onHost (serverOf sn.provider) (cmdSubnetNat action (db.text sn.cidr))).hosts server = s.hosts server :=
        Function.update_of_ne same _ _
      dsimp only
      rw [away]

/-- A command that fits what is stored then leaves the hosts as they should be exactly if
it meets what it has to. -/
theorem faithful_iff_settled {s' : Site} {wanted : Prop} {action : Option NatAction}
    (hosts : s'.hosts = (s.act sn db action).hosts)
    (stored : ∀ server cidr, Masqueraded db s'.tables server cidr ↔
      if server = serverOf sn.provider ∧ cidr = db.text sn.cidr then wanted else Masqueraded db s.tables server cidr)
    (adds : action = some .add → wanted) (dels : action = some .del → ¬ wanted) :
    s'.Faithful db ↔ s.Settled db sn wanted action := by
  have agrees : ∀ server cidr, s'.AgreesOn db server cidr ↔
      if server = serverOf sn.provider ∧ cidr = db.text sn.cidr then (s.hosts server).Suits cidr wanted action
      else s.AgreesOn db server cidr := by
    intro server cidr
    unfold Site.AgreesOn
    rw [hosts, hasRule_act, stored]
    split
    · cases action with
      | none => exact Iff.rfl
      | some action =>
        cases action with
        | add => exact iff_of_true (iff_of_true trivial (adds rfl)) trivial
        | del =>
          rw [Host.HasRuleAfter, iff_false_right (dels rfl), not_not]
          exact Iff.rfl
    · exact Iff.rfl
  unfold Site.Faithful
  simp only [agrees]
  constructor
  · intro all
    refine ⟨fun server cidr valid other => ?_, fun valid => ?_⟩
    · have here := all server cidr valid
      rwa [if_neg other] at here
    · have here := all (serverOf sn.provider) (db.text sn.cidr) valid
      rwa [if_pos ⟨rfl, rfl⟩] at here
  · rintro ⟨others, own⟩ server cidr valid
    split
    · rename_i both
      obtain ⟨rfl, rfl⟩ := both
      exact own valid
    · rename_i other
      exact others server cidr valid other

theorem exec_applyNAT (action : NatAction) (db : CidrType) (sn : Subnet) (s : Site) :
    (applyNAT .ok action db sn).exec s =
      if s.installer (serverOf sn.provider) = true then
        if validCidr.accepts (db.text sn.cidr) = true then (some (), s.act sn db (some action)) else (none, s)
      else (some (), s) := by
  unfold applyNAT
  rw [Proc.exec_bind, Proc.exec_read]
  dsimp only
  cases s.installer (serverOf sn.provider) with
  | false => rfl
  | true =>
    rw [if_pos rfl, Proc.when, if_pos rfl, subnetNAT, Proc.exec_guard_bind]
    rfl

theorem exec_getSubnet (works : Bool) (id : Int) (s : Site) :
    (store (getSubnet works id)).exec s = (if works then s.tables.subnets.get id else none, s) := rfl

theorem setSubnetNATMode_done {outcome : Outcome} {mode : NATMode} {s' : Site}
    (done : (store (setSubnetNATMode outcome id mode)).exec s = (some (), s')) :
    s' = { s with tables := Write.apply (.setSubnetNATMode id mode) s.tables } := by
  have result : (store (setSubnetNATMode outcome id mode)).exec s =
      (if ((s.tables.subnets.get id).map fun _ => Write.setSubnetNATMode id mode).isSome ∧ outcome = .ok then some () else none,
        { s with tables := Steps.effect Write.apply (((s.tables.subnets.get id).map fun _ => .setSubnetNATMode id mode).map
          (·, outcome)) s.tables }) := rfl
  rw [result] at done
  obtain ⟨answered, rfl⟩ := Prod.mk.inj done
  split at answered
  · rename_i both
    obtain ⟨w, made⟩ := Option.isSome_iff_exists.mp both.1
    rw [made, both.2]
    obtain ⟨sn, -, rfl⟩ := Option.map_eq_some_iff.mp made
    rfl
  · cases answered

/-- What a change of mode that reports success has done. -/
theorem updateNAT_done {env : NatEnv} (works : env.host = .ok) {mode : Text} {s' : Site}
    (done : (Site.apiSubnetsUpdateNAT env db id mode).exec s = (some (), s')) :
    ∃ m sn, NATMode.parse mode = some m ∧ s.tables.subnets.get id = some sn ∧
      s'.hosts = (s.act sn db (s.updateAction sn m)).hosts ∧ s'.tables = Write.apply (.setSubnetNATMode id m) s.tables := by
  obtain ⟨m, _, first, rest⟩ := Proc.exec_bind_eq_some_iff.mp done
  obtain ⟨parsed, rfl⟩ := Proc.exec_lift_eq_some_iff.mp first
  obtain ⟨sn, _, second, rest⟩ := Proc.exec_bind_eq_some_iff.mp rest
  rw [exec_getSubnet] at second
  obtain ⟨found, rfl⟩ := Prod.mk.inj second
  obtain ⟨_, _, third, rest⟩ := Proc.exec_bind_eq_some_iff.mp rest
  obtain ⟨-, rfl⟩ := Proc.exec_guard_eq_some_iff.mp third
  obtain ⟨_, t, fourth, rest⟩ := Proc.exec_bind_eq_some_iff.mp rest
  have row : s.tables.subnets.get id = some sn := by
    split at found
    · exact found
    · cases found
  have acted : t = s.act sn db (s.updateAction sn m) := by
    rw [works] at fourth
    unfold Site.updateAction
    by_cases changes : m ≠ sn.natMode
    · rw [Proc.when, if_pos (decide_eq_true changes), exec_applyNAT] at fourth
      split at fourth
      · rename_i reached
        rw [if_pos ⟨changes, reached⟩]
        split at fourth
        · exact (Prod.mk.inj fourth).2.symm
        · cases fourth
      · rename_i unreached
        rw [if_neg fun both => unreached both.2]
        exact (Prod.mk.inj fourth).2.symm
    · rw [Proc.when, if_neg fun on => changes (of_decide_eq_true on)] at fourth
      rw [if_neg fun both => changes both.1]
      exact (Prod.mk.inj fourth).2.symm
  have tables : t.tables = s.tables := by
    rw [acted]
    cases s.updateAction sn m <;> rfl
  rw [setSubnetNATMode_done rest]
  refine ⟨m, sn, parsed, row, ?_, ?_⟩
  · rw [acted]
  · rw [tables]

/-- The host's part of a deletion never fails. -/
theorem exec_teardown {env : NatEnv} (works : env.host = .ok) (db : CidrType) (id : Int) (s : Site) :
    (teardown env db (if env.getSubnet then s.tables.subnets.get id else none)).exec s =
      (some (), (s.tables.subnets.get id).elim s fun sn => s.act sn db (s.deleteAction env db sn)) := by
  cases s.tables.subnets.get id with
  | none =>
    rw [ite_self]
    rfl
  | some sn =>
    rw [Option.elim_some, Site.deleteAction]
    by_cases read : env.getSubnet = true
    · rw [if_pos read, teardown]
      by_cases stored : sn.natMode = .masquerade ∧ sn.provider ≠ []
      · have on : (decide (sn.natMode = .masquerade) && decide (sn.provider ≠ [])) = true := by
          rw [Bool.and_eq_true, decide_eq_true_eq, decide_eq_true_eq]
          exact stored
        rw [Proc.when, if_pos on, Proc.exec_bind, Proc.exec_attempt, works, exec_applyNAT]
        by_cases reached : s.installer (serverOf sn.provider) = true
        · by_cases valid : validCidr.accepts (db.text sn.cidr) = true
          · rw [if_pos reached, if_pos valid, if_pos ⟨read, stored.1, stored.2, reached, valid⟩]
            rfl
          · rw [if_pos reached, if_neg valid, if_neg fun all => valid all.2.2.2.2]
            rfl
        · rw [if_neg reached, if_neg fun all => reached all.2.2.2.1]
          rfl
      · have off : ¬ (decide (sn.natMode = .masquerade) && decide (sn.provider ≠ [])) = true := by
          rw [Bool.and_eq_true, decide_eq_true_eq, decide_eq_true_eq]
          exact stored
        rw [Proc.when, if_neg off, if_neg fun all => stored ⟨all.2.1, all.2.2.1⟩]
        rfl
    · rw [if_neg read, if_neg fun all => read all.1]
      rfl

/-- To the store a deletion is what it is without the hosts. -/
theorem exec_apiSubnetsDelete {env : NatEnv} (works : env.host = .ok) (db : CidrType) (id : Int) (s : Site) :
    (Site.apiSubnetsDelete env db id).exec s =
      (((apiSubnetsDelete ⟨env.getSubnet, env.write⟩ id).exec Write.apply s.tables).1,
        { ((s.tables.subnets.get id).elim s fun sn => s.act sn db (s.deleteAction env db sn)) with
          tables := ((apiSubnetsDelete ⟨env.getSubnet, env.write⟩ id).exec Write.apply s.tables).2 }) := by
  have tables : ((s.tables.subnets.get id).elim s fun sn => s.act sn db (s.deleteAction env db sn)).tables = s.tables := by
    cases s.tables.subnets.get id with
    | none => rfl
    | some sn =>
      rw [Option.elim_some]
      cases s.deleteAction env db sn <;> rfl
  unfold Site.apiSubnetsDelete
  rw [Proc.exec_bind, Proc.exec_attempt, exec_getSubnet]
  dsimp only
  rw [Proc.exec_bind, exec_teardown works]
  dsimp only
  rw [store, Proc.exec_zoom, tables]
  rfl

theorem masqueraded_setSubnetNATMode {t : Tables} (texts : TextsDiffer db t) (row : t.subnets.get id = some sn) (mode : NATMode)
    (server cidr : Text) :
    Masqueraded db (Write.apply (.setSubnetNATMode id mode) t) server cidr ↔
      if server = serverOf sn.provider ∧ cidr = db.text sn.cidr then mode = .masquerade else Masqueraded db t server cidr := by
  unfold Masqueraded
  simp only [get_setSubnetNATMode, Option.map_eq_some_iff]
  split
  · rename_i own
    obtain ⟨rfl, rfl⟩ := own
    constructor
    · rintro ⟨id', sn', ⟨old, found, rfl⟩, masked, -, text⟩
      have same : id' = id := by
        refine texts id' id old sn found row (Eq.trans ?_ text)
        split <;> rfl
      rw [if_pos same] at masked
      exact masked
    · rintro rfl
      refine ⟨id, _, ⟨sn, row, rfl⟩, ?_⟩
      rw [if_pos rfl]
      exact ⟨rfl, rfl, rfl⟩
  · rename_i other
    constructor
    · rintro ⟨id', sn', ⟨old, found, rfl⟩, masked, host, text⟩
      have apart : id' ≠ id := by
        rintro rfl
        rw [if_pos rfl] at host text
        cases row.symm.trans found
        exact other ⟨host.symm, text.symm⟩
      rw [if_neg apart] at masked host text
      exact ⟨id', old, found, masked, host, text⟩
    · rintro ⟨id', sn', found, masked, host, text⟩
      have apart : id' ≠ id := by
        rintro rfl
        cases row.symm.trans found
        exact other ⟨host.symm, text.symm⟩
      exact ⟨id', sn', ⟨sn', found, if_neg apart⟩, masked, host, text⟩

theorem masqueraded_deleteSubnet {t : Tables} (texts : TextsDiffer db t) (row : t.subnets.get id = some sn) (server cidr : Text) :
    Masqueraded db (Write.apply (.deleteSubnet id) t) server cidr ↔
      if server = serverOf sn.provider ∧ cidr = db.text sn.cidr then False else Masqueraded db t server cidr := by
  have kept : ∀ id' sn', (Write.apply (.deleteSubnet id) t).subnets.get id' = some sn' ↔ id' ≠ id ∧ t.subnets.get id' = some sn' := by
    intro id' sn'
    rw [get_deleteSubnet]
    split
    · rename_i same
      simp [same]
    · rename_i apart
      simp [apart]
  unfold Masqueraded
  simp only [kept]
  split
  · rename_i own
    obtain ⟨rfl, rfl⟩ := own
    refine iff_of_false ?_ not_false
    rintro ⟨id', sn', ⟨apart, found⟩, -, -, text⟩
    exact apart (texts id' id sn' sn found row text)
  · rename_i other
    refine exists₂_congr fun id' sn' => ?_
    rw [and_assoc]
    refine and_iff_right_of_imp ?_
    rintro ⟨found, -, host, text⟩ rfl
    cases row.symm.trans found
    exact other ⟨host.symm, text.symm⟩

theorem TextsDiffer.setSubnetNATMode {t : Tables} (texts : TextsDiffer db t) (id : Int) (mode : NATMode) :
    TextsDiffer db (Write.apply (.setSubnetNATMode id mode) t) := by
  intro x x' a b here there same
  rw [get_setSubnetNATMode, Option.map_eq_some_iff] at here there
  obtain ⟨oldA, foundA, rfl⟩ := here
  obtain ⟨oldB, foundB, rfl⟩ := there
  refine texts x x' oldA oldB foundA foundB ?_
  split at same <;> split at same <;> exact same

theorem TextsDiffer.deleteSubnet {t : Tables} (texts : TextsDiffer db t) (id : Int) :
    TextsDiffer db (Write.apply (.deleteSubnet id) t) := by
  intro x x' a b here there same
  rw [get_deleteSubnet] at here there
  split at here
  · cases here
  · split at there
    · cases there
    · exact texts x x' a b here there same

theorem keeps_store {α : Type} {I : Tables → Prop} {m : Request α} (keep : ∀ t, I t → I (m.exec Write.apply t).2) :
    Proc.Keeps (fun s => I s.tables) (store m) := Proc.Keeps.of_state fun s holds => keep s.tables holds

theorem keeps_applyNAT {I : Tables → Prop} (outcome : Outcome) (action : NatAction) (db : CidrType) (sn : Subnet) :
    Proc.Keeps (fun s => I s.tables) (applyNAT outcome action db sn) :=
  Proc.Keeps.bind (Proc.Keeps.read _) fun _ => Proc.Keeps.when <| Proc.Keeps.bind (Proc.Keeps.guard _) fun _ =>
    Proc.Keeps.write fun _ holds => holds

end

section
variable {db : CidrType} {s : Site}

theorem NatEvent.texts_step (texts : TextsDiffer db s.tables) (e : NatEvent) : TextsDiffer db (e.step db s).tables := by
  cases e with
  | update env id mode =>
    have keeps : Proc.Keeps (fun s : Site => TextsDiffer db s.tables) (Site.apiSubnetsUpdateNAT env db id mode) := by
      refine Proc.Keeps.bind (Proc.Keeps.lift _) fun m => Proc.Keeps.bind (keeps_store fun _ holds => holds) fun sn =>
        Proc.Keeps.bind (Proc.Keeps.guard _) fun _ => Proc.Keeps.bind (Proc.Keeps.when (keeps_applyNAT _ _ _ _)) fun _ =>
          keeps_store fun t texts => ?_
      change TextsDiffer db (Steps.effect Write.apply (((t.subnets.get id).map fun _ => Write.setSubnetNATMode id m).map
        (·, env.write)) t)
      cases t.subnets.get id with
      | none => exact texts
      | some sn => cases env.write <;> first | exact texts | exact texts.setSubnetNATMode id m
    exact Proc.Triple.state keeps (fun _ _ holds => holds) texts
  | delete env id =>
    have keeps : Proc.Keeps (fun s : Site => TextsDiffer db s.tables) (Site.apiSubnetsDelete env db id) := by
      refine Proc.Keeps.bind (Proc.Keeps.attempt (keeps_store fun _ holds => holds)) fun sn => Proc.Keeps.bind ?_ fun _ =>
        keeps_store fun t texts => ?_
      · cases sn with
        | none => exact Proc.Keeps.pure _
        | some sn =>
          exact Proc.Keeps.when (Proc.Keeps.bind (Proc.Keeps.attempt (keeps_applyNAT _ _ _ _)) fun _ => Proc.Keeps.pure _)
      · change TextsDiffer db (Steps.effect Write.apply (some (Write.deleteSubnet id, env.write)) t)
        cases env.write <;> first | exact texts | exact texts.deleteSubnet id
    exact Proc.Triple.state keeps (fun _ _ holds => holds) texts
  | route server wan => exact texts
  | enable server enabled => exact texts

/-- What has to hold of the host when a request is made that will report success. -/
def NatEvent.Settles (db : CidrType) (s : Site) : NatEvent → Prop
  | update _ id mode => ∀ m sn, NATMode.parse mode = some m → s.tables.subnets.get id = some sn →
      s.Settled db sn (m = .masquerade) (s.updateAction sn m)
  | delete env id => (s.tables.subnets.get id).elim (s.Faithful db) fun sn => s.Settled db sn False (s.deleteAction env db sn)
  | route _ _ | enable _ _ => True

theorem faithful_update_iff (texts : TextsDiffer db s.tables) {env : NatEnv} {id : Int} {mode : Text} (works : env.host = .ok)
    (success : (NatEvent.update env id mode).succeeds db s = true) :
    ((NatEvent.update env id mode).step db s).Faithful db ↔ (NatEvent.update env id mode).Settles db s := by
  obtain ⟨u, answered⟩ := Option.isSome_iff_exists.mp success
  obtain ⟨m, sn, parsed, row, hosts, tables⟩ := updateNAT_done works (Prod.ext answered rfl)
  have exact : ((NatEvent.update env id mode).step db s).Faithful db ↔
      s.Settled db sn (m = .masquerade) (s.updateAction sn m) := by
    refine faithful_iff_settled hosts (fun server cidr => ?_) (fun added => ?_) fun removed => ?_
    · rw [NatEvent.step, tables, masqueraded_setSubnetNATMode texts row]
    · unfold Site.updateAction at added
      split at added
      · by_contra other
        rw [if_neg other] at added
        cases added
      · cases added
    · unfold Site.updateAction at removed
      split at removed
      · intro wanted
        rw [if_pos wanted] at removed
        cases removed
      · cases removed
  rw [exact]
  constructor
  · intro settled m' sn' parsed' row'
    cases parsed.symm.trans parsed'
    cases row.symm.trans row'
    exact settled
  · intro all
    exact all m sn parsed row

theorem faithful_delete_iff (texts : TextsDiffer db s.tables) {env : NatEnv} {id : Int} (works : env.host = .ok)
    (success : (NatEvent.delete env id).succeeds db s = true) :
    ((NatEvent.delete env id).step db s).Faithful db ↔ (NatEvent.delete env id).Settles db s := by
  rw [NatEvent.succeeds, exec_apiSubnetsDelete works] at success
  have written : env.write = .ok := by
    cases written : env.write with
    | ok => rfl
    | failed | lost => rw [written] at success; cases success
  rw [NatEvent.step, exec_apiSubnetsDelete works, NatEvent.Settles, written]
  cases row : s.tables.subnets.get id with
  | none =>
    have same : ∀ server cidr, Masqueraded db (Write.apply (.deleteSubnet id) s.tables) server cidr ↔
        Masqueraded db s.tables server cidr := by
      intro server cidr
      refine exists₂_congr fun id' sn => and_congr_left fun _ => ?_
      rw [get_deleteSubnet]
      split
      · rename_i own
        rw [own, row]
      · exact Iff.rfl
    exact forall₃_congr fun server cidr _ => iff_congr Iff.rfl (same server cidr)
  | some sn =>
    refine faithful_iff_settled rfl (fun server cidr => masqueraded_deleteSubnet texts row server cidr) (fun added => ?_)
      fun _ => not_false
    unfold Site.deleteAction at added
    split at added <;> cases added

end

/-- In every run in which the commands on the hosts succeed: after each request that reports
success, each host has a rule for an IPv4 network exactly if it is stored with `masquerade`,
if and only if each such request finds what it needs. The others must be as they are stored;
a new rule needs an installer; and a rule that is to go must be known, be within reach, and
except the interface of the default route of that time, or none. -/
theorem nat_follows_mode_iff (db : CidrType) (s : Site) (texts : TextsDiffer db s.tables) (es : List NatEvent)
    (works : ∀ e ∈ es, e.HostWorks) :
    (∀ first e, first ++ [e] <+: es → e.succeeds db (Run.after (NatEvent.step db) s first) = true →
        (Run.after (NatEvent.step db) s (first ++ [e])).Faithful db) ↔
      Run.Meets (NatEvent.step db) (fun s e => e.succeeds db s = true → e.Settles db s) s es := by
  rw [← Run.Meets.each_iff]
  refine forall₃_congr fun first e part => forall_congr' fun success => ?_
  have member : e ∈ es := part.subset (List.mem_append_right _ (List.mem_singleton_self e))
  have texts' : TextsDiffer db (Run.after (NatEvent.step db) s first).tables :=
    Run.invariant (fun s : Site => TextsDiffer db s.tables) (fun _ e texts => e.texts_step texts) texts first
  rw [Run.after_concat]
  cases e with
  | update env id mode => exact faithful_update_iff texts' (works _ member) success
  | delete env id => exact faithful_delete_iff texts' (works _ member) success
  | route server wan => cases success
  | enable server enabled => cases success

section
variable {db : CidrType} {s : Site} {sn : Subnet} {id : Int}

theorem masqueraded_own (texts : TextsDiffer db s.tables) (row : s.tables.subnets.get id = some sn) :
    Masqueraded db s.tables (serverOf sn.provider) (db.text sn.cidr) ↔ sn.natMode = .masquerade := by
  constructor
  · rintro ⟨id', sn', found, masked, -, text⟩
    obtain rfl := texts id' id sn' sn found row text
    cases row.symm.trans found
    exact masked
  · intro masked
    exact ⟨id, sn, row, masked, rfl, rfl⟩

theorem Site.Faithful.settled_iff (faithful : s.Faithful db) {wanted : Prop} {action : Option NatAction} :
    s.Settled db sn wanted action ↔ (validCidr.accepts (db.text sn.cidr) = true →
      (s.hosts (serverOf sn.provider)).Suits (db.text sn.cidr) wanted action) :=
  ⟨Site.Settled.own, fun own => ⟨fun server cidr valid _ => faithful server cidr valid, own⟩⟩

/-- From hosts that are as they should be, a change of mode needs an installer, and one
back to `passthrough` a rule that the host's present route does not keep it from removing. -/
theorem settled_update_iff (faithful : s.Faithful db) (texts : TextsDiffer db s.tables) (row : s.tables.subnets.get id = some sn)
    (mode : NATMode) :
    s.Settled db sn (mode = .masquerade) (s.updateAction sn mode) ↔
      (validCidr.accepts (db.text sn.cidr) = true → mode ≠ sn.natMode → s.installer (serverOf sn.provider) = true ∧
        (mode ≠ .masquerade → (s.hosts (serverOf sn.provider)).Removable (db.text sn.cidr))) := by
  rw [faithful.settled_iff]
  refine forall_congr' fun valid => ?_
  have now := (faithful _ _ valid).trans (masqueraded_own texts row)
  unfold Site.updateAction
  by_cases changes : mode ≠ sn.natMode
  · rw [forall_prop_of_true changes]
    by_cases reached : s.installer (serverOf sn.provider) = true
    · rw [if_pos ⟨changes, reached⟩, and_iff_right reached]
      by_cases wanted : mode = .masquerade
      · rw [if_pos wanted]
        exact iff_of_true trivial fun other => absurd wanted other
      · rw [if_neg wanted, forall_prop_of_true wanted]
        exact Iff.rfl
    · rw [if_neg fun both => reached both.2]
      refine iff_of_false (fun same => ?_) fun both => reached both.1
      have same' : sn.natMode = .masquerade ↔ mode = .masquerade := now.symm.trans same
      cases mode <;> cases stored : sn.natMode <;> simp_all
  · rw [if_neg fun both => changes both.1]
    refine iff_of_true (now.trans ?_) fun other => absurd other changes
    rw [not_not.mp changes]

/-- A deletion of a masqueraded network also has to read the row. -/
theorem settled_delete_iff (faithful : s.Faithful db) (texts : TextsDiffer db s.tables) (row : s.tables.subnets.get id = some sn)
    (env : NatEnv) :
    s.Settled db sn False (s.deleteAction env db sn) ↔
      (validCidr.accepts (db.text sn.cidr) = true → sn.natMode = .masquerade →
        env.getSubnet = true ∧ sn.provider ≠ [] ∧ s.installer (serverOf sn.provider) = true ∧
          (s.hosts (serverOf sn.provider)).Removable (db.text sn.cidr)) := by
  rw [faithful.settled_iff]
  refine forall_congr' fun valid => ?_
  have now := (faithful _ _ valid).trans (masqueraded_own texts row)
  unfold Site.deleteAction
  by_cases masked : sn.natMode = .masquerade
  · rw [forall_prop_of_true masked]
    by_cases known : env.getSubnet = true ∧ sn.provider ≠ [] ∧ s.installer (serverOf sn.provider) = true
    · rw [if_pos ⟨known.1, masked, known.2.1, known.2.2, valid⟩, and_iff_right known.1, and_iff_right known.2.1,
        and_iff_right known.2.2]
      exact Iff.rfl
    · rw [if_neg fun all => known ⟨all.1, all.2.2.1, all.2.2.2.1⟩]
      exact iff_of_false (fun none' => none'.mp (now.mpr masked)) fun all => known ⟨all.1, all.2.1, all.2.2.1⟩
  · rw [if_neg fun all => masked all.2.1]
    exact iff_of_true (iff_of_false (fun has => masked (now.mp has)) not_false) fun masked' => absurd masked' masked

end

def masquerade : Text := "masquerade".toList

def passthrough : Text := "passthrough".toList

/-- A network behind a tunnel of a host that reaches the world by `eth0`. -/
def oneSubnet : Site where
  tables := { subnets := KeyTable.empty.upsert 1 ⟨"srv:wg0".toList, ⟨.v4 0x0a010000, 16⟩, .passthrough⟩, nextSubnet := 2 }
  hosts := fun _ => ⟨"eth0".toList, []⟩
  installer := fun _ => true

theorem not_masqueraded {t : Tables} (none' : t.subnets.rows.all (·.2.natMode ≠ .masquerade) = true) (db : CidrType)
    (server cidr : Text) : ¬ Masqueraded db t server cidr := by
  rintro ⟨id, sn, row, masked, -⟩
  have other := List.all_eq_true.mp none' (id, sn) (KeyTable.get_eq_some_iff.mp row)
  exact absurd masked (of_decide_eq_true other)

theorem texts_oneSubnet : TextsDiffer plainCidr oneSubnet.tables := by
  have only : ∀ id sn, oneSubnet.tables.subnets.get id = some sn → id = 1 := by
    intro id sn row
    exact congrArg Prod.fst (List.mem_singleton.mp (KeyTable.get_eq_some_iff.mp row))
  intro id id' a b here there _
  rw [only id a here, only id' b there]

theorem faithful_oneSubnet : oneSubnet.Faithful plainCidr := by
  refine fun server cidr _ => iff_of_false ?_ (not_masqueraded (by decide +kernel) _ _ _)
  rintro ⟨notOut, listed⟩
  exact absurd listed List.not_mem_nil

theorem nat_follows_mode_sample :
    let es : List NatEvent := [.update {} 1 masquerade, .update {} 1 passthrough]
    ∀ first e, first ++ [e] <+: es → e.succeeds plainCidr (Run.after (NatEvent.step plainCidr) oneSubnet first) = true →
      (Run.after (NatEvent.step plainCidr) oneSubnet (first ++ [e])).Faithful plainCidr := by
  have works : ∀ e ∈ [NatEvent.update {} 1 masquerade, .update {} 1 passthrough], e.HostWorks := by simp [NatEvent.HostWorks]
  refine (nat_follows_mode_iff plainCidr oneSubnet texts_oneSubnet _ works).mpr ?_
  have add : (NatEvent.update {} 1 masquerade).Settles plainCidr oneSubnet := by
    intro m sn parsed row
    have mode : NATMode.parse masquerade = some .masquerade := by decide +kernel
    cases mode.symm.trans parsed
    exact (settled_update_iff faithful_oneSubnet texts_oneSubnet row _).mpr fun _ _ => ⟨rfl, fun other => absurd rfl other⟩
  have added := (faithful_update_iff texts_oneSubnet rfl (by decide +kernel)).mpr add
  have texts := NatEvent.texts_step texts_oneSubnet (.update {} 1 masquerade)
  have remove : (NatEvent.update {} 1 passthrough).Settles plainCidr
      ((NatEvent.update {} 1 masquerade).step plainCidr oneSubnet) := by
    intro m sn parsed row
    have stored : ((NatEvent.update {} 1 masquerade).step plainCidr oneSubnet).tables.subnets.get 1 =
        some ⟨"srv:wg0".toList, ⟨.v4 0x0a010000, 16⟩, .masquerade⟩ := by decide +kernel
    have host : ((NatEvent.update {} 1 masquerade).step plainCidr oneSubnet).hosts (serverOf "srv:wg0".toList) =
        ⟨"eth0".toList, [.subnet "10.1.0.0/16".toList (some "eth0".toList)]⟩ := by decide +kernel
    have text : plainCidr.text ⟨.v4 0x0a010000, 16⟩ = "10.1.0.0/16".toList := by decide +kernel
    cases stored.symm.trans row
    refine (settled_update_iff added texts row m).mpr fun _ _ => ⟨by decide +kernel, fun _ notOut listed => ?_⟩
    dsimp only at listed ⊢
    rw [host, text] at listed ⊢
    cases List.mem_singleton.mp listed
    exact ⟨.inr ⟨by decide, rfl⟩, by decide +kernel⟩
  exact ⟨fun _ => add, fun _ => remove, trivial⟩

/-- The route changes before the rule is to go; a server is disabled when the mode is
changed, or when the subnet is deleted. -/
theorem nat_left_behind :
    let wrong (es : List NatEvent) (e : NatEvent) :=
      e.succeeds plainCidr (Run.after (NatEvent.step plainCidr) oneSubnet es) = true ∧
        ¬ (Run.after (NatEvent.step plainCidr) oneSubnet (es ++ [e])).Faithful plainCidr
    wrong [.update {} 1 masquerade, .route "srv".toList "eth1".toList] (.update {} 1 passthrough) ∧
      wrong [.update {} 1 masquerade, .route "srv".toList []] (.delete {} 1) ∧
      wrong [.enable "srv".toList false] (.update {} 1 masquerade) ∧
      wrong [.update {} 1 masquerade, .enable "srv".toList false] (.delete {} 1) := by
  have valid : validCidr.accepts "10.1.0.0/16".toList = true := by decide +kernel
  have left : ∀ {s : Site}, NatRule.subnet "10.1.0.0/16".toList (some "eth0".toList) ∈ (s.hosts "srv".toList).chain →
      s.tables.subnets.rows.all (·.2.natMode ≠ .masquerade) = true → ¬ s.Faithful plainCidr := by
    intro s rule none' faithful
    exact not_masqueraded none' _ _ _ ((faithful _ _ valid).mp ⟨_, rule⟩)
  refine ⟨⟨?_, ?_⟩, ⟨?_, ?_⟩, ⟨?_, fun faithful => ?_⟩, ⟨?_, ?_⟩⟩
  · decide +kernel
  · exact left (by decide +kernel) (by decide +kernel)
  · decide +kernel
  · exact left (by decide +kernel) (by decide +kernel)
  · decide +kernel
  · obtain ⟨notOut, listed⟩ := (faithful "srv".toList _ valid).mpr
      ⟨1, ⟨"srv:wg0".toList, ⟨.v4 0x0a010000, 16⟩, .masquerade⟩, by decide +kernel, rfl, by decide +kernel, by decide +kernel⟩
    exact absurd listed List.not_mem_nil
  · decide +kernel
  · exact left (by decide +kernel) (by decide +kernel)

end Protean.Network
