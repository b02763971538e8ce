import Mathlib.Data.List.Infix
import Protean.WgFamily.RoundTrip

/- The firewall rules that the panel keeps in the hooks of an interface. -/
namespace Protean.WgFamily

inductive FirewallBackend
  | iptables
  | nft
  deriving DecidableEq, Repr

def managedTag : Text := "protean".toList

def isManagedRule (kv : KV) : Bool :=
  (kv.key = "PostUp".toList || kv.key = "PostDown".toList) && managedTag <:+: kv.value

def ConfFile.hasManagedForwarding (cf : ConfFile) : Bool := cf.interfaceOpts.any isManagedRule

/-- Lower case is that of ASCII: no other letter has one of `masquerade` for its lower case. -/
def masquerades (kv : KV) : Bool := "masquerade".toList <:+: kv.value.map Char.toLower

def ConfFile.hasManagedNAT (cf : ConfFile) : Bool := cf.interfaceOpts.any fun kv => isManagedRule kv && masquerades kv

def ConfFile.dropManaged (cf : ConfFile) : ConfFile :=
  { cf with interfaceOpts := cf.interfaceOpts.filter fun kv => !isManagedRule kv }

def iptablesRules (egress : Bool) (tunnelCIDR wanIface : Text) : List KV :=
  let m := "protean-fwd".toList
  let rules : List KV := [
    ⟨"PostUp".toList, "iptables -I FORWARD -i %i -j ACCEPT -m comment --comment ".toList ++ m⟩,
    ⟨"PostUp".toList, "iptables -I FORWARD -o %i -j ACCEPT -m comment --comment ".toList ++ m⟩,
    ⟨"PostDown".toList, "iptables -D FORWARD -i %i -j ACCEPT -m comment --comment ".toList ++ m⟩,
    ⟨"PostDown".toList, "iptables -D FORWARD -o %i -j ACCEPT -m comment --comment ".toList ++ m⟩]
  if egress ∧ tunnelCIDR ≠ [] ∧ wanIface ≠ [] then
    let n := "protean-nat".toList
    rules ++ [
      ⟨"PostUp".toList, "iptables -t nat -A POSTROUTING -s ".toList ++ tunnelCIDR ++ " -o ".toList ++ wanIface ++
        " -j MASQUERADE -m comment --comment ".toList ++ n⟩,
      ⟨"PostDown".toList, "iptables -t nat -D POSTROUTING -s ".toList ++ tunnelCIDR ++ " -o ".toList ++ wanIface ++
        " -j MASQUERADE -m comment --comment ".toList ++ n⟩]
  else rules

/-- One table for each interface, which goes as a whole. -/
def nftRules (egress : Bool) (tunnelCIDR wanIface : Text) : List KV :=
  let tbl := "inet protean_%i".toList
  let up : List Text := [
    "nft add table ".toList ++ tbl,
    "nft add chain ".toList ++ tbl ++ " fwd '\x7b type filter hook forward priority filter; \x7d'".toList,
    "nft add rule ".toList ++ tbl ++ " fwd iifname %i accept".toList,
    "nft add rule ".toList ++ tbl ++ " fwd oifname %i accept".toList]
  let up := if egress ∧ tunnelCIDR ≠ [] ∧ wanIface ≠ [] then
      up ++ [
        "nft add chain ".toList ++ tbl ++ " nat '\x7b type nat hook postrouting priority srcnat; \x7d'".toList,
        "nft add rule ".toList ++ tbl ++ " nat ip saddr ".toList ++ tunnelCIDR ++ " oifname ".toList ++ wanIface ++
          " masquerade".toList]
    else up
  up.map (fun u => ⟨"PostUp".toList, u⟩) ++ [⟨"PostDown".toList, "nft delete table ".toList ++ tbl⟩]

def ConfFile.setManagedNetworking (cf : ConfFile) (backend : FirewallBackend) (forwarding egress : Bool)
    (tunnelCIDR wanIface : Text) : ConfFile :=
  let cf := cf.dropManaged
  if forwarding then
    match backend with
    | .nft => { cf with interfaceOpts := cf.interfaceOpts ++ nftRules egress tunnelCIDR wanIface }
    | .iptables => { cf with interfaceOpts := cf.interfaceOpts ++ iptablesRules egress tunnelCIDR wanIface }
  else cf

structure NetworkingCall where
  backend : FirewallBackend
  forwarding : Bool
  egress : Bool
  tunnelCIDR : Text
  wanIface : Text
  deriving DecidableEq, Repr

namespace NetworkingCall

variable (call : NetworkingCall)

def rules : List KV :=
  if call.forwarding then
    match call.backend with
    | .nft => nftRules call.egress call.tunnelCIDR call.wanIface
    | .iptables => iptablesRules call.egress call.tunnelCIDR call.wanIface
  else []

/-- What the call asks for behind the interface. -/
def NAT : Prop := call.forwarding = true ∧ call.egress = true ∧ call.tunnelCIDR ≠ [] ∧ call.wanIface ≠ []

def Plain : Prop := '\n' ∉ call.tunnelCIDR ∧ '\n' ∉ call.wanIface

end NetworkingCall

inductive NetworkingStep
  | set (call : NetworkingCall)
  | roundTrip
  deriving DecidableEq, Repr

def NetworkingStep.call? : NetworkingStep → Option NetworkingCall
  | .set call => some call
  | .roundTrip => none

def ConfFile.networkingStep (cf : ConfFile) : NetworkingStep → ConfFile
  | .set call => cf.setManagedNetworking call.backend call.forwarding call.egress call.tunnelCIDR call.wanIface
  | .roundTrip => parseConf cf.render

def lastCall (steps : List NetworkingStep) : Option NetworkingCall := (steps.filterMap NetworkingStep.call?).getLast?

/-- A rule of `iptables`, as it is put into its chain and taken out. -/
structure Insertion where
  nat : Bool
  append : Bool
  spec : Text

def Insertion.command (i : Insertion) (verb : Text) : Text :=
  "iptables ".toList ++ (if i.nat then "-t nat ".toList else []) ++ verb ++ i.spec

def Insertion.up (i : Insertion) : Text := i.command (if i.append then "-A ".toList else "-I ".toList)

def Insertion.down (i : Insertion) : Text := i.command "-D ".toList

def valuesOf (key : Text) (rules : List KV) : List Text := (rules.filter (·.key = key)).map KV.value

/-- What is inserted when the interface comes up is deleted when it goes down. -/
def Undone (rules : List KV) : Prop :=
  ∃ inserted : List Insertion, valuesOf "PostUp".toList rules = inserted.map Insertion.up ∧
    valuesOf "PostDown".toList rules = inserted.map Insertion.down

/-- The rules that no setting is written into. -/
def fixedRules : List KV :=
  iptablesRules false [] [] ++ nftRules false [] [] ++
    [⟨"PostUp".toList, "nft add chain ".toList ++ "inet protean_%i".toList ++
      " nat '\x7b type nat hook postrouting priority srcnat; \x7d'".toList⟩]

structure NATForm where
  key : Text
  first : Text
  middle : Text
  last : Text

def NATForm.rule (f : NATForm) (tunnelCIDR wanIface : Text) : KV :=
  ⟨f.key, f.first ++ tunnelCIDR ++ f.middle ++ wanIface ++ f.last⟩

def natForms : List NATForm := [
  ⟨"PostUp".toList, "iptables -t nat -A POSTROUTING -s ".toList, " -o ".toList,
    " -j MASQUERADE -m comment --comment ".toList ++ "protean-nat".toList⟩,
  ⟨"PostDown".toList, "iptables -t nat -D POSTROUTING -s ".toList, " -o ".toList,
    " -j MASQUERADE -m comment --comment ".toList ++ "protean-nat".toList⟩,
  ⟨"PostUp".toList, "nft add rule ".toList ++ "inet protean_%i".toList ++ " nat ip saddr ".toList, " oifname ".toList,
    " masquerade".toList⟩]

section
variable {call : NetworkingCall} {kv : KV} {cf : ConfFile}

theorem mem_fixedRules_iptables (member : kv ∈ iptablesRules false [] []) : kv ∈ fixedRules :=
  List.mem_append_left _ (List.mem_append_left _ member)

theorem mem_fixedRules_nft (member : kv ∈ nftRules false [] []) : kv ∈ fixedRules :=
  List.mem_append_left _ (List.mem_append_right _ member)

variable {tunnelCIDR wanIface : Text} {egress : Bool}

theorem mem_iptablesRules (member : kv ∈ iptablesRules egress tunnelCIDR wanIface) :
    kv ∈ fixedRules ∨ (egress = true ∧ tunnelCIDR ≠ [] ∧ wanIface ≠ []) ∧
      ∃ f ∈ natForms, kv = f.rule tunnelCIDR wanIface := by
  unfold iptablesRules at member
  dsimp only at member
  split at member
  · rename_i nat
    rcases List.mem_append.mp member with fixed | new
    · exact .inl (mem_fixedRules_iptables fixed)
    · refine .inr ⟨nat, ?_⟩
      rw [List.mem_cons, List.mem_singleton] at new
      rcases new with rfl | rfl
      · exact ⟨_, List.mem_cons_self, congrArg (KV.mk _) (List.append_assoc _ _ _)⟩
      · exact ⟨_, List.mem_cons_of_mem _ List.mem_cons_self, congrArg (KV.mk _) (List.append_assoc _ _ _)⟩
  · exact .inl (mem_fixedRules_iptables member)

theorem mem_nftRules (member : kv ∈ nftRules egress tunnelCIDR wanIface) :
    kv ∈ fixedRules ∨ (egress = true ∧ tunnelCIDR ≠ [] ∧ wanIface ≠ []) ∧
      ∃ f ∈ natForms, kv = f.rule tunnelCIDR wanIface := by
  unfold nftRules at member
  dsimp only at member
  rcases List.mem_append.mp member with up | down
  · split at up
    · rename_i nat
      rw [List.map_append] at up
      rcases List.mem_append.mp up with fixed | new
      · exact .inl (mem_fixedRules_nft (List.mem_append_left _ fixed))
      · rw [List.map_cons, List.map_cons, List.map_nil, List.mem_cons, List.mem_singleton] at new
        rcases new with rfl | rfl
        · exact .inl (List.mem_append_right _ (List.mem_singleton_self _))
        · exact .inr ⟨nat, _, List.mem_cons_of_mem _ (List.mem_cons_of_mem _ List.mem_cons_self), rfl⟩
    · exact .inl (mem_fixedRules_nft (List.mem_append_left _ up))
  · exact .inl (mem_fixedRules_nft (List.mem_append_right _ down))

/-- Where each rule of a call is from. -/
theorem mem_rules (member : kv ∈ call.rules) :
    call.forwarding = true ∧
      (kv ∈ fixedRules ∨ call.NAT ∧ ∃ f ∈ natForms, kv = f.rule call.tunnelCIDR call.wanIface) := by
  unfold NetworkingCall.rules at member
  split at member
  · rename_i on
    refine ⟨on, ?_⟩
    split at member
    · exact (mem_nftRules member).imp_right fun ⟨nat, form⟩ => ⟨⟨on, nat⟩, form⟩
    · exact (mem_iptablesRules member).imp_right fun ⟨nat, form⟩ => ⟨⟨on, nat⟩, form⟩
  · exact absurd member List.not_mem_nil

theorem natRule_mem (nat : call.NAT) : ∃ f ∈ natForms, f.rule call.tunnelCIDR call.wanIface ∈ call.rules := by
  unfold NetworkingCall.rules
  rw [if_pos nat.1]
  split
  · refine ⟨_, List.mem_cons_of_mem _ (List.mem_cons_of_mem _ List.mem_cons_self), ?_⟩
    unfold nftRules
    dsimp only
    rw [if_pos nat.2, List.map_append]
    exact List.mem_append_left _ (List.mem_append_right _ (List.mem_cons_of_mem _ List.mem_cons_self))
  · refine ⟨_, List.mem_cons_self, ?_⟩
    unfold iptablesRules
    dsimp only
    rw [if_pos nat.2]
    exact List.mem_append_right _ (List.mem_cons.mpr (.inl (congrArg (KV.mk _) (List.append_assoc _ _ _).symm)))

theorem rules_ne_nil (on : call.forwarding = true) : call.rules ≠ [] := by
  unfold NetworkingCall.rules
  rw [if_pos on]
  split
  · exact List.append_ne_nil_of_right_ne_nil _ (List.cons_ne_nil _ _)
  · unfold iptablesRules
    dsimp only
    split <;> exact List.cons_ne_nil _ _

theorem isManagedRule_iff : isManagedRule kv = true ↔
    (kv.key = "PostUp".toList ∨ kv.key = "PostDown".toList) ∧ managedTag <:+: kv.value := by
  rw [isManagedRule, Bool.and_eq_true, Bool.or_eq_true, decide_eq_true_iff, decide_eq_true_iff, decide_eq_true_iff]

/-- What holds of the texts between which settings are written. -/
structure NATForm.Good (f : NATForm) : Prop where
  key : f.key = "PostUp".toList ∨ f.key = "PostDown".toList
  tagged : managedTag <:+: f.first ∨ managedTag <:+: f.last
  masquerades : "masquerade".toList <:+: f.last.map Char.toLower
  head : f.first ≠ [] ∧ f.first.head?.all (!Text.isSpace ·) = true
  last : f.last ≠ [] ∧ f.last.getLast?.all (!Text.isSpace ·) = true
  single : '\n' ∉ f.first ∧ '\n' ∉ f.middle ∧ '\n' ∉ f.last

theorem natForms_good : ∀ f ∈ natForms, f.Good := by
  have fixed : ∀ f ∈ natForms, (f.key = "PostUp".toList ∨ f.key = "PostDown".toList) ∧
      (managedTag <:+: f.first ∨ managedTag <:+: f.last) ∧ "masquerade".toList <:+: f.last.map Char.toLower ∧
      (f.first ≠ [] ∧ f.first.head?.all (!Text.isSpace ·) = true) ∧
      (f.last ≠ [] ∧ f.last.getLast?.all (!Text.isSpace ·) = true) ∧
      '\n' ∉ f.first ∧ '\n' ∉ f.middle ∧ '\n' ∉ f.last := by decide +kernel
  intro f member
  obtain ⟨key, tagged, masquerades, head, last, single⟩ := fixed f member
  exact ⟨key, tagged, masquerades, head, last, single⟩

/-- What holds of the other rules. -/
theorem fixedRules_good : ∀ kv ∈ fixedRules, (kv.key = "PostUp".toList ∨ kv.key = "PostDown".toList) ∧
    managedTag <:+: kv.value ∧ masquerades kv = false ∧ Text.trimSpace kv.value = kv.value ∧ '\n' ∉ kv.value := by
  decide +kernel

theorem valid_hook (key : kv.key = "PostUp".toList ∨ kv.key = "PostDown".toList)
    (trimmed : Text.trimSpace kv.value = kv.value) (single : '\n' ∉ kv.value) : kv.Valid := by
  have fixed : ∀ key ∈ ["PostUp".toList, "PostDown".toList],
      Text.trimSpace key = key ∧ ('=' ∉ key ∧ '\n' ∉ key) ∧ key.head? ≠ some '#' := by decide +kernel
  obtain ⟨trimmed', plain, option⟩ := fixed kv.key (by simpa using key)
  exact ⟨trimmed', plain, option, trimmed, single⟩

namespace NATForm

variable {f : NATForm} (good : f.Good)

include good

theorem Good.isManagedRule (tunnelCIDR wanIface : Text) : isManagedRule (f.rule tunnelCIDR wanIface) = true := by
  refine isManagedRule_iff.mpr ⟨good.key, ?_⟩
  rcases good.tagged with first | last
  · have start : f.first <+: (f.rule tunnelCIDR wanIface).value := by
      simp only [NATForm.rule, List.append_assoc, List.prefix_append]
    exact first.trans start.isInfix
  · exact last.trans (List.suffix_append _ _).isInfix

theorem Good.masquerades_rule (tunnelCIDR wanIface : Text) :
    WgFamily.masquerades (f.rule tunnelCIDR wanIface) = true := by
  refine decide_eq_true (good.masquerades.trans ?_)
  rw [NATForm.rule, List.map_append]
  exact (List.suffix_append _ _).isInfix

theorem Good.valid (single : '\n' ∉ tunnelCIDR) (single' : '\n' ∉ wanIface) : (f.rule tunnelCIDR wanIface).Valid := by
  refine valid_hook good.key (Text.Trimmed.trimSpace_eq ⟨fun c first => ?_, fun c last => ?_⟩) ?_
  · have head := good.head.2
    rw [NATForm.rule, List.append_assoc, List.append_assoc, List.append_assoc,
      List.head?_append_of_ne_nil _ good.head.1] at first
    rw [Option.mem_def.mp first] at head
    simpa using head
  · have final := good.last.2
    rw [NATForm.rule, List.getLast?_append_of_ne_nil _ good.last.1] at last
    rw [Option.mem_def.mp last] at final
    simpa using final
  · simp [NATForm.rule, single, single', good.single]

end NATForm

theorem isManagedRule_rules (member : kv ∈ call.rules) : isManagedRule kv = true := by
  rcases (mem_rules member).2 with plain | ⟨_, f, form, rfl⟩
  · obtain ⟨key, tagged, _⟩ := fixedRules_good kv plain
    exact isManagedRule_iff.mpr ⟨key, tagged⟩
  · exact (natForms_good f form).isManagedRule _ _

theorem valid_rules (plain : call.Plain) (member : kv ∈ call.rules) : kv.Valid := by
  rcases (mem_rules member).2 with member | ⟨_, f, form, rfl⟩
  · obtain ⟨key, _, _, trimmed, single⟩ := fixedRules_good kv member
    exact valid_hook key trimmed single
  · exact (natForms_good f form).valid plain.1 plain.2

theorem exists_masquerades_iff : (∃ kv ∈ call.rules, masquerades kv = true) ↔ call.NAT := by
  constructor
  · rintro ⟨kv, member, masqueraded⟩
    rcases (mem_rules member).2 with plain | ⟨nat, _⟩
    · rw [(fixedRules_good kv plain).2.2.1] at masqueraded
      exact nomatch masqueraded
    · exact nat
  · intro nat
    obtain ⟨f, form, member⟩ := natRule_mem nat
    exact ⟨_, member, (natForms_good f form).masquerades_rule _ _⟩

theorem valuesOf_append (key : Text) (rules more : List KV) :
    valuesOf key (rules ++ more) = valuesOf key rules ++ valuesOf key more := by
  rw [valuesOf, List.filter_append, List.map_append]
  rfl

theorem Undone.append {rules more : List KV} (undone : Undone rules) (undone' : Undone more) : Undone (rules ++ more) := by
  obtain ⟨inserted, up, down⟩ := undone
  obtain ⟨inserted', up', down'⟩ := undone'
  refine ⟨inserted ++ inserted', ?_, ?_⟩
  · rw [valuesOf_append, up, up', List.map_append]
  · rw [valuesOf_append, down, down', List.map_append]

theorem undone_pair (i : Insertion) : Undone [⟨"PostUp".toList, i.up⟩, ⟨"PostDown".toList, i.down⟩] := ⟨[i], rfl, rfl⟩

theorem undone_forward : Undone (iptablesRules false [] []) :=
  ⟨[⟨false, false, "FORWARD -i %i -j ACCEPT -m comment --comment protean-fwd".toList⟩,
    ⟨false, false, "FORWARD -o %i -j ACCEPT -m comment --comment protean-fwd".toList⟩],
    by decide +kernel, by decide +kernel⟩

theorem Insertion.up_nat (spec : Text) : (⟨true, true, spec⟩ : Insertion).up = "iptables -t nat -A ".toList ++ spec := rfl

theorem Insertion.down_nat (spec : Text) : (⟨true, true, spec⟩ : Insertion).down = "iptables -t nat -D ".toList ++ spec := rfl

theorem iptablesRules_of_nat (nat : egress = true ∧ tunnelCIDR ≠ [] ∧ wanIface ≠ []) :
    ∃ i : Insertion, iptablesRules egress tunnelCIDR wanIface = iptablesRules false [] [] ++
      [⟨"PostUp".toList, i.up⟩, ⟨"PostDown".toList, i.down⟩] := by
  have up : "iptables -t nat -A POSTROUTING -s ".toList = "iptables -t nat -A ".toList ++ "POSTROUTING -s ".toList := by
    decide +kernel
  have down : "iptables -t nat -D POSTROUTING -s ".toList = "iptables -t nat -D ".toList ++ "POSTROUTING -s ".toList := by
    decide +kernel
  refine ⟨⟨true, true, "POSTROUTING -s ".toList ++ (tunnelCIDR ++ (" -o ".toList ++ (wanIface ++
    (" -j MASQUERADE -m comment --comment ".toList ++ "protean-nat".toList))))⟩, ?_⟩
  rw [Insertion.up_nat, Insertion.down_nat]
  unfold iptablesRules
  dsimp only
  rw [if_pos nat, if_neg (fun off => nomatch off.1), up, down]
  generalize "iptables -t nat -A ".toList = insert
  generalize "iptables -t nat -D ".toList = delete
  repeat rw [List.append_assoc]

theorem iptablesRules_of_not_nat (none : ¬ (egress = true ∧ tunnelCIDR ≠ [] ∧ wanIface ≠ [])) :
    iptablesRules egress tunnelCIDR wanIface = iptablesRules false [] [] := by
  simp only [iptablesRules, if_neg none, Bool.false_eq_true, false_and, if_false]

/-- Each rule of `iptables` comes with the command that deletes it. -/
theorem undone_iptablesRules (egress : Bool) (tunnelCIDR wanIface : Text) :
    Undone (iptablesRules egress tunnelCIDR wanIface) := by
  by_cases nat : egress = true ∧ tunnelCIDR ≠ [] ∧ wanIface ≠ []
  · obtain ⟨i, same⟩ := iptablesRules_of_nat nat
    rw [same]
    exact undone_forward.append (undone_pair i)
  · rw [iptablesRules_of_not_nat nat]
    exact undone_forward

/-- The options that are not the panel's. -/
def operatorOpts (opts : List KV) : List KV := opts.filter fun kv => !isManagedRule kv

variable {opts : List KV}

theorem operatorOpts_eq_self (operator : ∀ kv ∈ opts, isManagedRule kv = false) :
    operatorOpts opts = opts := List.filter_eq_self.mpr fun kv member => by rw [operator kv member]; rfl

theorem operatorOpts_append_rules (opts : List KV) (call : NetworkingCall) :
    operatorOpts (operatorOpts opts ++ call.rules) = operatorOpts opts := by
  have none : call.rules.filter (fun kv => !isManagedRule kv) = [] :=
    List.filter_eq_nil_iff.mpr fun kv member => by simp [isManagedRule_rules member]
  rw [operatorOpts, List.filter_append, none, List.append_nil, operatorOpts, List.filter_filter]
  simp

theorem interfaceOpts_setManagedNetworking (cf : ConfFile) (call : NetworkingCall) :
    (cf.networkingStep (.set call)).interfaceOpts = operatorOpts cf.interfaceOpts ++ call.rules := by
  unfold ConfFile.networkingStep ConfFile.setManagedNetworking NetworkingCall.rules
  dsimp only
  split
  · split <;> rfl
  · exact (List.append_nil _).symm

theorem peers_setManagedNetworking (cf : ConfFile) (call : NetworkingCall) :
    (cf.networkingStep (.set call)).peers = cf.peers := by
  unfold ConfFile.networkingStep ConfFile.setManagedNetworking
  dsimp only
  split
  · split <;> rfl
  · rfl

/-- The options after a run, by its last call. -/
def managedOpts (opts : List KV) : Option NetworkingCall → List KV
  | none => opts
  | some call => operatorOpts opts ++ call.rules

theorem operatorOpts_managedOpts (opts : List KV) (last : Option NetworkingCall) :
    operatorOpts (managedOpts opts last) = operatorOpts opts := by
  cases last with
  | none => rfl
  | some call => exact operatorOpts_append_rules opts call

/-- One step keeps what can be written, and replaces the rules by those of the call. -/
theorem networkingStep_spec {last : Option NetworkingCall} {step : NetworkingStep} (valid : cf.Valid)
    (managed : cf.interfaceOpts = managedOpts opts last) (plain : ∀ call, step = .set call → call.Plain) :
    (cf.networkingStep step).Valid ∧
      (cf.networkingStep step).interfaceOpts = managedOpts opts (step.call?.or last) := by
  cases step with
  | set call =>
    have same : (cf.networkingStep (.set call)).interfaceOpts = operatorOpts opts ++ call.rules := by
      rw [interfaceOpts_setManagedNetworking, managed, operatorOpts_managedOpts]
    refine ⟨⟨fun kv member => ?_, ?_⟩, same⟩
    · rw [interfaceOpts_setManagedNetworking] at member
      rcases List.mem_append.mp member with old | new
      · exact valid.interfaceOpts kv (List.mem_of_mem_filter old)
      · exact valid_rules (plain call rfl) new
    · rw [peers_setManagedNetworking]
      exact valid.peers
  | roundTrip =>
    refine ⟨parseConf_valid _, ?_⟩
    rw [ConfFile.networkingStep, parseConf_render valid]
    exact managed

theorem lastCall_concat (steps : List NetworkingStep) (step : NetworkingStep) :
    lastCall (steps ++ [step]) = step.call?.or (lastCall steps) := by
  rw [lastCall, List.filterMap_append, List.getLast?_append]
  cases step <;> rfl

theorem networking_run {steps : List NetworkingStep} (valid : cf.Valid) (plain : ∀ call, .set call ∈ steps → call.Plain) :
    (steps.foldl ConfFile.networkingStep cf).Valid ∧
      (steps.foldl ConfFile.networkingStep cf).interfaceOpts = managedOpts cf.interfaceOpts (lastCall steps) := by
  induction steps using List.reverseRecOn with
  | nil => exact ⟨valid, rfl⟩
  | append_singleton steps step ih =>
    obtain ⟨valid', managed⟩ := ih fun call member => plain call (List.mem_append_left _ member)
    rw [List.foldl_append, List.foldl_cons, List.foldl_nil, lastCall_concat]
    exact networkingStep_spec valid' managed fun call same => plain call (same ▸ List.mem_append_right _ (by simp))

/-- What the panel finds of its own is among the rules. -/
theorem exists_managed_iff (p : KV → Prop) :
    (∃ kv ∈ operatorOpts opts ++ call.rules, isManagedRule kv = true ∧ p kv) ↔ ∃ kv ∈ call.rules, p kv := by
  constructor
  · rintro ⟨kv, member, managed, holds⟩
    rcases List.mem_append.mp member with old | new
    · have other := (List.mem_filter.mp old).2
      rw [managed] at other
      exact nomatch other
    · exact ⟨kv, new, holds⟩
  · rintro ⟨kv, member, holds⟩
    exact ⟨kv, List.mem_append_right _ member, isManagedRule_rules member, holds⟩

end

/-- After every run of calls and round trips, the panel's rules are those of the
last call, behind the options of the operator. -/
theorem managedNetworking_last (content : Text) (steps : List NetworkingStep) (call : NetworkingCall)
    (plain : ∀ c, .set c ∈ steps → c.Plain) (last : lastCall steps = some call) :
    let original := (parseConf content).interfaceOpts
    let cf := steps.foldl ConfFile.networkingStep (parseConf content)
    cf.interfaceOpts = operatorOpts original ++ call.rules ∧
      ((∀ kv ∈ original, kv.key = "PostUp".toList ∨ kv.key = "PostDown".toList → ¬ managedTag <:+: kv.value) →
        cf.interfaceOpts = original ++ call.rules) ∧
      (cf.hasManagedForwarding = true ↔ call.forwarding = true) ∧
      (cf.hasManagedNAT = true ↔ call.forwarding = true ∧ call.egress = true ∧ call.tunnelCIDR ≠ [] ∧
        call.wanIface ≠ []) ∧
      (call.backend = .iptables → Undone call.rules) := by
  intro original cf
  have opts : cf.interfaceOpts = operatorOpts original ++ call.rules := by
    rw [(networking_run (parseConf_valid content) plain).2, last]
    rfl
  refine ⟨opts, fun operator => ?_, ?_, ?_, fun backend => ?_⟩
  · have unmanaged : ∀ kv ∈ original, isManagedRule kv = false := fun kv member =>
      Bool.eq_false_iff.mpr fun managed =>
        operator kv member (isManagedRule_iff.mp managed).1 (isManagedRule_iff.mp managed).2
    rw [opts, operatorOpts_eq_self unmanaged]
  · rw [ConfFile.hasManagedForwarding, opts, List.any_eq_true]
    have found : (∃ kv ∈ operatorOpts original ++ call.rules, isManagedRule kv = true ∧ True) ↔
        ∃ kv ∈ call.rules, True := exists_managed_iff fun _ => True
    simp only [and_true] at found
    rw [found]
    constructor
    · rintro ⟨kv, member⟩
      exact (mem_rules member).1
    · exact fun on => List.exists_mem_of_ne_nil _ (rules_ne_nil on)
  · rw [ConfFile.hasManagedNAT, opts, List.any_eq_true]
    simp only [Bool.and_eq_true]
    rw [exists_managed_iff, exists_masquerades_iff]
    rfl
  · unfold NetworkingCall.rules
    rw [backend]
    split
    · exact undone_iptablesRules _ _ _
    · exact ⟨[], rfl, rfl⟩

/-- From one backend to the other, with a rule of the operator before. -/
theorem managedNetworking_last_switch :
    let nft : NetworkingCall := ⟨.nft, true, false, [], []⟩
    let iptables : NetworkingCall := ⟨.iptables, true, true, "10.8.0.0/24".toList, "eth0".toList⟩
    let steps : List NetworkingStep := [.set nft, .roundTrip, .set iptables, .roundTrip]
    let cf := steps.foldl ConfFile.networkingStep (parseConf "[Interface]\nPostUp = echo up\n".toList)
    cf.interfaceOpts = ⟨"PostUp".toList, "echo up".toList⟩ :: iptables.rules ∧ cf.hasManagedNAT = true := by
  intro nft iptables steps cf
  have plain : ∀ c, .set c ∈ steps → c.Plain := by
    simp only [steps, List.mem_cons, NetworkingStep.set.injEq, List.not_mem_nil, reduceCtorEq, or_false, false_or]
    rintro c (rfl | rfl)
    · exact ⟨by decide, by decide⟩
    · exact ⟨by decide +kernel, by decide +kernel⟩
  have run := managedNetworking_last "[Interface]\nPostUp = echo up\n".toList steps iptables plain rfl
  have original : operatorOpts (parseConf "[Interface]\nPostUp = echo up\n".toList).interfaceOpts =
      [⟨"PostUp".toList, "echo up".toList⟩] := by decide +kernel
  refine ⟨?_, run.2.2.2.1.mpr ⟨rfl, rfl, by decide +kernel, by decide +kernel⟩⟩
  exact run.1.trans (congrArg (· ++ iptables.rules) original)

end Protean.WgFamily
