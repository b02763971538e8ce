import Protean.Firewall.Render

namespace Protean.Firewall

/-- A row of the draft the admin saves. -/
structure RuleReq where
  action : Text
  proto : Text
  portSpec : Text
  sourceCIDR : Text
  comment : Text
  enabled : Bool
  deriving DecidableEq, Repr

structure FirewallRule where
  ordering : Nat
  action : Text
  proto : Text
  portSpec : Text
  sourceCIDR : Text
  comment : Text
  enabled : Bool
  deriving DecidableEq, Repr

inductive PutError
  | invalidAction
  | invalidProtocol
  deriving DecidableEq, Repr

def PutError.message : PutError → Text
  | invalidAction => "invalid rule action".toList
  | invalidProtocol => "invalid rule protocol".toList

/-- The only checks a saved rule passes: its action and its protocol. The
port, the source and the comment are stored as sent. -/
def checkRule (i : Nat) (rr : RuleReq) : Except PutError FirewallRule :=
  if rr.action ≠ Field.accept ∧ rr.action ≠ Field.drop ∧ rr.action ≠ Field.reject then
    .error .invalidAction
  else if rr.proto ≠ Word.tcp ∧ rr.proto ≠ Word.udp ∧ rr.proto ≠ Field.any then
    .error .invalidProtocol
  else .ok ⟨i, rr.action, rr.proto, rr.portSpec, rr.sourceCIDR, rr.comment, rr.enabled⟩

/-- The rows are checked from the `i`-th on, and the first bad one ends it. -/
def checkRules (i : Nat) : List RuleReq → Except PutError (List FirewallRule)
  | [] => .ok []
  | rr :: rest =>
    match checkRule i rr with
    | .error e => .error e
    | .ok rule => (checkRules (i + 1) rest).map (rule :: ·)

def apiFirewallRulesPut (req : List RuleReq) : Except PutError (List FirewallRule) :=
  checkRules 0 req

def toFirewallRules (rules : List FirewallRule) : List Rule :=
  (rules.filter (·.enabled)).map fun r => ⟨r.action, r.proto, r.portSpec, r.sourceCIDR, r.comment⟩

/-- The listening port of one VPN instance, as the caller gathered it. -/
structure InstancePort where
  label : Text
  proto : Text
  port : Int
  deriving DecidableEq, Repr

/-- The SSH port always, every known instance port, and on the panel's own
host its web ports. -/
def computeBaseline (sshPort : Int) (instances : List InstancePort) (panelHost : Bool)
    (panelPorts : List Int) : List BaselinePort :=
  [⟨Word.tcp, sshPort, "SSH".toList⟩] ++
    (instances.filter (0 < ·.port)).map (fun ip => ⟨ip.proto, ip.port, ip.label⟩) ++
    (if panelHost then
      (panelPorts.filter (0 < ·)).map fun p => ⟨Word.tcp, p, "Panel (web)".toList⟩
    else [])

/-- `proto:port`. -/
def criticalEntry (bp : BaselinePort) : Text := bp.proto ++ ':' :: Text.itoa bp.port

def sudoWord : Text := ['s', 'u', 'd', 'o']

def installerPath : Text :=
  ['/', 'u', 's', 'r', '/', 'l', 'o', 'c', 'a', 'l', '/', 'l', 'i', 'b', '/', 'p', 'r', 'o', 't',
   'e', 'a', 'n', '/', 'p', 'r', 'o', 't', 'e', 'a', 'n', '-', 'i', 'n', 's', 't', 'a', 'l', 'l',
   'e', 'r', '.', 's', 'h']

def firewallApplyVerb : Text := ['f', 'i', 'r', 'e', 'w', 'a', 'l', 'l', '-', 'a', 'p', 'p', 'l', 'y']

def heredocEnd : Text := ['P', 'R', 'O', 'T', 'E', 'A', 'N', '_', 'F', 'W', '_', 'E', 'O', 'F']

/-- `RunVerb`: the command line sent to the host, with the text for standard
input as a here-document. -/
def runVerb (verb : Text) (args : List Text) (stdin : Text) : Text :=
  let cmd := args.foldl (fun cmd a => cmd ++ ' ' :: a) (sudoWord ++ ' ' :: installerPath ++ ' ' :: verb)
  if stdin ≠ [] then
    cmd ++ ([' ', '<', '<', '\''] ++ heredocEnd ++ ['\'', '\n']) ++ stdin ++ ('\n' :: heredocEnd)
  else cmd

/-- The SSH port has an argument of its own. -/
def isSshPort (sshPort : Int) (bp : BaselinePort) : Bool := bp.proto = Word.tcp ∧ bp.port = sshPort

/-- One round of the loop in `criticalPortsCSV`. -/
def addCritical (sshPort : Int) (s : Text) (bp : BaselinePort) : Text :=
  if isSshPort sshPort bp then s
  else (if s ≠ [] then s ++ [','] else s) ++ criticalEntry bp

def criticalPortsCSV (baseline : List BaselinePort) (sshPort : Int) : Text :=
  baseline.foldl (addCritical sshPort) []

/-- The arguments `apiFirewallApply` sends. -/
def applyArgs (window sshPort : Int) (baseline : List BaselinePort) : List Text :=
  [Text.itoa window, Text.itoa sshPort, criticalPortsCSV baseline sshPort]

/-- The rows that take a place in the list. -/
def criticalPorts (baseline : List BaselinePort) (sshPort : Int) : List BaselinePort :=
  baseline.filter (!isSshPort sshPort ·)

theorem criticalEntry_ne_nil (bp : BaselinePort) : criticalEntry bp ≠ [] := by
  simp [criticalEntry]

theorem addCritical_ne_nil {sshPort : Int} {s : Text} (bp : BaselinePort) (nonempty : s ≠ []) :
    addCritical sshPort s bp ≠ [] := by
  unfold addCritical
  split <;> simp [nonempty]

theorem criticalPorts_cons {sshPort : Int} {bp : BaselinePort} (other : isSshPort sshPort bp = false)
    (baseline : List BaselinePort) :
    criticalPorts (bp :: baseline) sshPort = bp :: criticalPorts baseline sshPort := by
  simp [criticalPorts, other]

theorem criticalPorts_cons_ssh {sshPort : Int} {bp : BaselinePort} (ssh : isSshPort sshPort bp = true)
    (baseline : List BaselinePort) :
    criticalPorts (bp :: baseline) sshPort = criticalPorts baseline sshPort := by
  simp [criticalPorts, ssh]

theorem foldl_addCritical {sshPort : Int} {s : Text} (baseline : List BaselinePort)
    (nonempty : s ≠ []) :
    baseline.foldl (addCritical sshPort) s =
      [','].intercalate (s :: (criticalPorts baseline sshPort).map criticalEntry) := by
  induction baseline generalizing s with
  | nil => simp [criticalPorts, List.intercalate]
  | cons bp baseline ih =>
    rw [List.foldl_cons, ih (addCritical_ne_nil bp nonempty)]
    cases ssh : isSshPort sshPort bp with
    | true => rw [addCritical, if_pos ssh, criticalPorts_cons_ssh ssh]
    | false =>
      rw [addCritical, if_neg (by simp [ssh]), if_pos nonempty, criticalPorts_cons ssh, List.map_cons,
        List.append_assoc, Text.intercalate_merge]

/-- The loop joins the entries with commas. -/
theorem criticalPortsCSV_eq (baseline : List BaselinePort) (sshPort : Int) :
    criticalPortsCSV baseline sshPort =
      [','].intercalate ((criticalPorts baseline sshPort).map criticalEntry) := by
  unfold criticalPortsCSV
  induction baseline with
  | nil => rfl
  | cons bp baseline ih =>
    rw [List.foldl_cons]
    cases ssh : isSshPort sshPort bp with
    | true => rw [addCritical, if_pos ssh, ih, criticalPorts_cons_ssh ssh]
    | false =>
      rw [addCritical, if_neg (by simp [ssh]), if_neg (by simp), List.nil_append,
        foldl_addCritical baseline (criticalEntry_ne_nil bp), criticalPorts_cons ssh, List.map_cons]

/-- What passes the check is one of the three actions on one of the three
protocols. -/
theorem checkRule_accepted {i : Nat} {rr : RuleReq} {rule : FirewallRule}
    (accepted : checkRule i rr = .ok rule) :
    (rule.action = Field.accept ∨ rule.action = Field.drop ∨ rule.action = Field.reject) ∧
      (rule.proto = Word.tcp ∨ rule.proto = Word.udp ∨ rule.proto = Field.any) := by
  unfold checkRule at accepted
  split at accepted
  · cases accepted
  · rename_i action
    split at accepted
    · cases accepted
    · rename_i proto
      cases accepted
      exact ⟨by tauto, by tauto⟩

theorem checkRules_accepted {req : List RuleReq} {rules : List FirewallRule} {i : Nat}
    (accepted : checkRules i req = .ok rules) :
    ∀ r ∈ rules, (r.action = Field.accept ∨ r.action = Field.drop ∨ r.action = Field.reject) ∧
      (r.proto = Word.tcp ∨ r.proto = Word.udp ∨ r.proto = Field.any) := by
  induction req generalizing rules i with
  | nil =>
    cases accepted
    simp
  | cons rr rest ih =>
    unfold checkRules at accepted
    split at accepted
    · cases accepted
    · rename_i rule checked
      cases tail : checkRules (i + 1) rest with
      | error e =>
        rw [tail] at accepted
        cases accepted
      | ok others =>
        rw [tail] at accepted
        cases accepted
        intro r member
        rcases List.mem_cons.mp member with rfl | later
        · exact checkRule_accepted checked
        · exact ih tail r later

end Protean.Firewall
