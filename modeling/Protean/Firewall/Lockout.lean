import Protean.Firewall.Meaning
import Protean.Firewall.Verbs

open Netfilter

namespace Protean.Firewall

def guardText : Text := commentPrefix ++ ['-', 'g', 'u', 'a', 'r', 'd']

/-- The rule a port guard inserts, if its arguments make one. -/
theorem readRule_portGuard (proto port : Text) :
    readRule (portGuard proto port) = (readProto proto).bind fun q =>
      if q = .tcp ∨ q = .udp then
        (readPortRange port).bind fun r => some
          { proto := some q, modules := [.dport r.1 r.2, .comment guardText], target := some .accept }
      else none := by
  have fits : commentFits guardText = true := by decide
  have shape : portGuard proto port = acceptPort proto port guardText := rfl
  rw [shape, readRule_acceptPort, fits]
  rfl

theorem readRule_stateGuard : readRule (stateSpec ++ guardComment) = some
    { modules := [.state [.established, .related], .comment guardText], target := some .accept } := by
  decide

theorem readRule_loGuard : readRule (loSpec ++ guardComment) = some
    { inIface := some lo, modules := [.comment guardText], target := some .accept } := by
  decide

/-- Whatever the arguments say, a guard that is inserted accepts. -/
theorem guards_accept {sshPort criticalCsv : Text} {spec : List Text} {rule : Netfilter.Rule}
    (member : spec ∈ guards sshPort criticalCsv) (read : readRule spec = some rule) :
    rule.verdict = some .accept := by
  have port : ∀ proto p, spec = portGuard proto p → rule.verdict = some .accept := by
    rintro proto p rfl
    rw [readRule_portGuard] at read
    cases found : readProto proto with
    | none => simp [found] at read
    | some q =>
      rw [found, Option.bind_some] at read
      split at read
      · obtain ⟨r, -, same⟩ := Option.bind_eq_some_iff.mp read
        cases same
        rfl
      · cases read
  rw [guards, List.mem_append] at member
  rcases member with critical | fixed
  · split at critical
    · obtain ⟨entry, -, rfl⟩ := List.mem_map.mp critical
      exact port _ _ rfl
    · cases critical
  · simp only [List.mem_cons, List.not_mem_nil, or_false] at fixed
    rcases fixed with ssh | rfl | rfl
    · exact port _ _ ssh
    · rw [readRule_stateGuard] at read
      cases read
      rfl
    · rw [readRule_loGuard] at read
      cases read
      rfl

section
variable {ext : Ext} {depth : Nat} {p : Packet}

def Accepts (ext : Ext) (depth : Nat) (live : Ruleset) (p : Packet) : Prop :=
  live.filter.verdict ext depth .input p = .accept

variable {spec : List Text}

/-- Inserting an accepting guard never takes an accepted packet away. -/
theorem Accepts.insertGuard {live : Ruleset} (before : Accepts ext depth live p)
    (accepting : ∀ rule, readRule spec = some rule → rule.verdict = some .accept) :
    Accepts ext depth (insertGuard live spec) p := by
  unfold Firewall.insertGuard
  split
  · rename_i rule read
    cases matched : rule.hits ext p with
    | true => exact Table.verdict_insert_of_hits (accepting rule read) matched
    | false => exact (Table.verdict_insert_of_not_hits matched).trans before
  · exact before

variable {rule : Netfilter.Rule}

theorem accepts_insertGuard {live : Ruleset} (read : readRule spec = some rule) (terminal : rule.verdict = some .accept)
    (matched : rule.hits ext p = true) : Accepts ext depth (insertGuard live spec) p := by
  rw [insertGuard, read]
  exact Table.verdict_insert_of_hits terminal matched

/-- Once the guard that matches a packet is in, the later ones keep it. -/
theorem accepts_foldl_insertGuard {specs : List (List Text)} (live : Ruleset) (member : spec ∈ specs)
    (read : readRule spec = some rule) (matched : rule.hits ext p = true)
    (accepting : ∀ s ∈ specs, ∀ r, readRule s = some r → r.verdict = some .accept) :
    Accepts ext depth (specs.foldl insertGuard live) p := by
  have kept : ∀ (rest : List (List Text)) (live : Ruleset), (∀ s ∈ rest, s ∈ specs) →
      Accepts ext depth live p → Accepts ext depth (rest.foldl insertGuard live) p := by
    intro rest
    induction rest with
    | nil => exact fun _ _ accepted => accepted
    | cons s rest ih =>
      intro live inside accepted
      exact ih _ (fun t later => inside t (List.mem_cons_of_mem _ later))
        (accepted.insertGuard (accepting s (inside s (List.mem_cons_self ..))))
  obtain ⟨before, after, rfl⟩ := List.append_of_mem member
  rw [List.foldl_append, List.foldl_cons]
  exact kept after _ (fun s later => by simp [later])
    (accepts_insertGuard read (accepting spec member rule read) matched)

theorem accepts_installGuards {sshPort criticalCsv : Text} (live : Ruleset) (member : spec ∈ guards sshPort criticalCsv)
    (read : readRule spec = some rule) (matched : rule.hits ext p = true) :
    Accepts ext depth (installGuards sshPort criticalCsv live) p :=
  accepts_foldl_insertGuard live member read matched fun _ inside _ => guards_accept inside

/-- The guard of a valid port matches every packet to it. -/
theorem portGuard_hits (ext : Ext) {proto : Text} {p : Packet}
    (read : readProto proto = some p.proto) (ports : p.proto = .tcp ∨ p.proto = .udp) :
    ∃ rule, readRule (portGuard proto (Text.decimal p.dport.toNat)) = some rule ∧
      rule.hits ext p = true := by
  rw [readRule_portGuard, read, Option.bind_some, if_pos ports,
    readPortRange_decimal p.dport.isLt, Option.bind_some]
  exact ⟨_, rfl, by simp [Netfilter.Rule.hits, Module.hits, inRange]⟩

end

theorem criticalEntry_plain {bp : BaselinePort} (valid : bp.Valid) :
    ',' ∉ criticalEntry bp ∧ ':' ∉ bp.proto := by
  obtain ⟨proto, low, -⟩ := valid
  obtain ⟨n, port⟩ := Int.eq_ofNat_of_zero_le (by omega : 0 ≤ bp.port)
  have digits : ',' ∉ Text.itoa bp.port := by
    rw [port]
    exact fun member => absurd (Text.isDigit_of_mem_decimal member) (by decide)
  have names : ∀ c ∈ [',', ':'], c ∉ bp.proto := by
    rcases proto with tcp | udp
    · rw [tcp]; decide
    · rw [udp]; decide
  refine ⟨?_, names ':' (by decide)⟩
  simp only [criticalEntry, List.mem_append, List.mem_cons, not_or]
  exact ⟨names ',' (by decide), by decide, digits⟩

/-- Every row that the panel sends comes back out of the shell's loop as its
own guard. -/
theorem criticalGuard_mem {baseline : List BaselinePort} {sshPort : Int} {bp : BaselinePort}
    (valid : ∀ b ∈ baseline, b.Valid) (member : bp ∈ baseline) (other : isSshPort sshPort bp = false)
    (ssh : Text) :
    portGuard bp.proto (Text.itoa bp.port) ∈ guards ssh (criticalPortsCSV baseline sshPort) := by
  have critical : bp ∈ criticalPorts baseline sshPort := by
    simp [criticalPorts, member, other]
  have sent : criticalEntry bp ∈ (criticalPorts baseline sshPort).map criticalEntry :=
    List.mem_map_of_mem critical
  have fields : Shell.fields ',' (criticalPortsCSV baseline sshPort) =
      (criticalPorts baseline sshPort).map criticalEntry := by
    rw [criticalPortsCSV_eq]
    refine Shell.fields_intercalate ?_ ?_ (List.ne_nil_of_mem sent)
    · rintro entry inside
      obtain ⟨b, listed, rfl⟩ := List.mem_map.mp inside
      exact (criticalEntry_plain (valid b (List.mem_of_mem_filter listed))).1
    · rintro entry inside
      obtain ⟨b, -, rfl⟩ := List.mem_map.mp inside
      exact criticalEntry_ne_nil b
  have nonempty : criticalPortsCSV baseline sshPort ≠ [] := by
    intro empty
    rw [empty] at fields
    rw [← fields] at sent
    cases sent
  have split : criticalGuard (criticalEntry bp) = portGuard bp.proto (Text.itoa bp.port) := by
    have colon := (criticalEntry_plain (valid bp member)).2
    rw [criticalGuard, criticalEntry, Shell.beforeFirst_append colon, Shell.afterFirst_append colon]
  rw [guards, if_pos nonempty, fields, List.mem_append]
  exact .inl (List.mem_map.mpr ⟨criticalEntry bp, sent, split⟩)

/-- A packet the operator must never lose. -/
def Critical (baseline : List BaselinePort) (sshPort : Int) (p : Packet) : Prop :=
  p.inIface = lo ∨ p.state = .established ∨ p.state = .related ∨
    (p.proto = .tcp ∧ sshPort = p.dport.toNat) ∨ ∃ bp ∈ baseline, bp.covers p

theorem installGuards_accepts {baseline : List BaselinePort} {sshPort : Int}
    (valid : ∀ bp ∈ baseline, bp.Valid) (live : Ruleset) (ext : Ext) (depth : Nat) {p : Packet}
    (critical : Critical baseline sshPort p) :
    Accepts ext depth
      (installGuards (Text.itoa sshPort) (criticalPortsCSV baseline sshPort) live) p := by
  have fixed : ∀ spec ∈ [portGuard Word.tcp (Text.itoa sshPort), stateSpec ++ guardComment,
      loSpec ++ guardComment],
      spec ∈ guards (Text.itoa sshPort) (criticalPortsCSV baseline sshPort) :=
    fun spec inside => List.mem_append_right _ inside
  have ssh : p.proto = .tcp → sshPort = p.dport.toNat → Accepts ext depth
      (installGuards (Text.itoa sshPort) (criticalPortsCSV baseline sshPort) live) p := by
    intro tcp port
    have named : readProto Word.tcp = some p.proto := by rw [tcp]; rfl
    obtain ⟨rule, read, matched⟩ := portGuard_hits ext named (.inl tcp)
    rw [← Text.itoa_natCast, ← port] at read
    exact accepts_installGuards live (fixed _ (by simp)) read matched
  rcases critical with onLo | established | related | ⟨tcp, port⟩ | ⟨bp, member, proto, port⟩
  · refine accepts_installGuards live (fixed _ (by simp)) readRule_loGuard ?_
    simp [Netfilter.Rule.hits, Module.hits, ifaceHits, onLo, lo]
  · refine accepts_installGuards live (fixed _ (by simp)) readRule_stateGuard ?_
    simp [Netfilter.Rule.hits, Module.hits, established]
  · refine accepts_installGuards live (fixed _ (by simp)) readRule_stateGuard ?_
    simp [Netfilter.Rule.hits, Module.hits, related]
  · exact ssh tcp port
  · cases isSsh : isSshPort sshPort bp with
    | true =>
      obtain ⟨tcp, same⟩ := of_decide_eq_true isSsh
      rw [tcp] at proto
      exact ssh (Option.some.inj proto).symm (same.symm.trans port)
    | false =>
      have ports : p.proto = .tcp ∨ p.proto = .udp := by
        rcases (valid bp member).1 with tcp | udp
        · rw [tcp] at proto
          exact .inl (Option.some.inj proto).symm
        · rw [udp] at proto
          exact .inr (Option.some.inj proto).symm
      obtain ⟨rule, read, matched⟩ := portGuard_hits ext proto ports
      rw [← Text.itoa_natCast, ← port] at read
      exact accepts_installGuards live (criticalGuard_mem valid member isSsh _) read matched

/-- However the supplied text reads, an apply that reports success leaves a
chain that accepts loopback, established traffic, the SSH port and every
baseline port. -/
theorem firewallApply_never_locks_out (tool : Iptables) (env : Env) (h h' : Host)
    (window sshPort : Int) (baseline : List BaselinePort) (stdin : Text) (w : Text)
    (valid : ∀ bp ∈ baseline, bp.Valid)
    (applied : mainFirewallApply tool env (Text.itoa window) (Text.itoa sshPort)
      (criticalPortsCSV baseline sshPort) stdin h = (h', .applied w))
    (ext : Ext) (depth : Nat) (p : Packet) (critical : Critical baseline sshPort p) :
    h'.live.filter.verdict ext depth .input p = .accept := by
  rcases mainFirewallApply_cases applied with ⟨-, refused⟩ | ⟨-, -, refused⟩ | ⟨-, -, -, -, rfl⟩
  · exact absurd rfl (refused w)
  · exact absurd rfl (refused w)
  · exact installGuards_accepts valid _ ext depth critical

/-- A ruleset text that drops everything, on a host with a WireGuard port. -/
theorem firewallApply_never_locks_out_dropAll :
    (mainFirewallApply ⟨fun _ => none, fun _ _ => Ruleset.bare .drop⟩ ⟨false, true, 0⟩
      (Text.itoa 60) (Text.itoa 22) (criticalPortsCSV [⟨Word.tcp, 22, []⟩, ⟨Word.udp, 51820, []⟩] 22) []
      (Host.fresh (.bare .accept))).1.live.filter.verdict ⟨fun _ _ _ => false, fun _ _ => none⟩ 0 .input
        ⟨['e'], [], .udp, 1, 2, 3, 51820, .new⟩ = .accept :=
  firewallApply_never_locks_out ⟨fun _ => none, fun _ _ => Ruleset.bare .drop⟩ ⟨false, true, 0⟩
    (Host.fresh (.bare .accept)) _ 60 22 [⟨Word.tcp, 22, []⟩, ⟨Word.udp, 51820, []⟩] [] (Text.itoa 60)
    (by simp [BaselinePort.Valid])
    (Prod.ext rfl (by decide)) _ 0 _
    (.inr (.inr (.inr (.inr ⟨⟨Word.udp, 51820, []⟩, by simp, rfl, rfl⟩))))

end Protean.Firewall
