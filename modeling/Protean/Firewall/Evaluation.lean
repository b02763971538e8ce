import Protean.Firewall.RuleLine

open Netfilter

namespace Protean.Firewall

/-- Always accepted, ahead of every rule of the admin. -/
def Exempt (baseline : List BaselinePort) (p : Packet) : Prop :=
  p.inIface = lo ∨ p.state = .established ∨ p.state = .related ∨ ∃ bp ∈ baseline, bp.covers p

instance (baseline : List BaselinePort) (p : Packet) : Decidable (Exempt baseline p) :=
  inferInstanceAs (Decidable (_ ∨ _))

def Rule.selects (r : Rule) (p : Packet) : Bool := r.selector.any (·.selects p)

/-- What the policy says about a packet, with no packet filter in sight. -/
def decision (policy : Policy) (baseline : List BaselinePort) (rules : List Rule) (p : Packet) :
    Verdict :=
  if Exempt baseline p then .accept
  else match rules.find? (·.selects p) with
    | some r => r.outcome
    | none => if foldsToAccept policy.defaultIncoming then .accept else .drop

/-- A text a comment can carry unchanged. -/
def Clean (t : Text) : Prop := '\n' ∉ t ∧ '"' ∉ t ∧ '\\' ∉ t

instance (t : Text) : Decidable (Clean t) := inferInstanceAs (Decidable (_ ∧ _))

/-- A rule written as the panel documents it. -/
structure Rule.WellFormed (r : Rule) : Prop where
  acts : r.Acts
  documented : r.selector.isSome
  clean : Clean r.comment

section
variable {bp : BaselinePort}

theorem lineArgs_baselineWords (valid : bp.Valid) :
    lineArgs (baselineWords bp) =
      acceptPort bp.proto (Text.itoa bp.port) (unescape (baselineComment bp)) := by
  have fixed : ∀ w ∈ [Word.dashP, Word.dashDport, Word.dashJ, Word.accept, Word.dashM, Word.comment,
      Word.dashComment, Word.tcp, Word.udp], PlainWord w := by
    unfold PlainWord Plain
    decide
  have proto : PlainWord bp.proto := by
    rcases valid.1 with same | same <;> rw [same] <;> exact fixed _ (by simp)
  have port : PlainWord (Text.itoa bp.port) := by
    obtain ⟨n, same⟩ := Int.eq_ofNat_of_zero_le (by have := valid.2.1; omega : 0 ≤ bp.port)
    rw [same]
    refine ⟨Text.decimal_ne_nil n, fun c member => ?_⟩
    exact (FieldChar.plain (.inl (Text.isDigit_of_mem_decimal member))).1
  have shape : baselineWords bp = [Word.dashP, bp.proto, Word.dashDport, Text.itoa bp.port, Word.dashJ,
      Word.accept, Word.dashM, Word.comment, Word.dashComment] ++ [quoted (baselineComment bp)] := rfl
  rw [shape, lineArgs_quoted ?_ (baselineComment_noQuote bp)]
  · rfl
  · intro w member
    simp only [List.mem_cons, List.not_mem_nil, or_false] at member
    rcases member with rfl | rfl | rfl | rfl | rfl | rfl | rfl | rfl | rfl <;>
      first | exact proto | exact port | exact fixed _ (by simp)

/-- A baseline line accepts exactly its own port. -/
theorem readRule_baselineWords (valid : bp.Valid) {rule : Netfilter.Rule}
    (read : readRule (lineArgs (baselineWords bp)) = some rule) :
    rule.target = some .accept ∧ ∀ ext p, rule.hits ext p = true ↔ bp.covers p := by
  obtain ⟨n, port⟩ := Int.eq_ofNat_of_zero_le (by have := valid.2.1; omega : 0 ≤ bp.port)
  have bounded : n < 65536 := by have := valid.2.2; omega
  have proto : ∃ q, readProto bp.proto = some q ∧ (q = .tcp ∨ q = .udp) := by
    rcases valid.1 with same | same
    · exact ⟨.tcp, by rw [same]; rfl, .inl rfl⟩
    · exact ⟨.udp, by rw [same]; rfl, .inr rfl⟩
  obtain ⟨q, named, ports⟩ := proto
  have digits : Text.itoa bp.port = Text.decimal n := by rw [port]; rfl
  rw [lineArgs_baselineWords valid, readRule_acceptPort, named, Option.bind_some, if_pos ports, digits,
    readPortRange_decimal bounded, Option.bind_some] at read
  split at read
  · cases read
    refine ⟨rfl, fun ext p => ?_⟩
    have number : bp.port = p.dport.toNat ↔ n = p.dport.toNat := by rw [port]; exact Int.ofNat_inj
    rw [BaselinePort.covers, named, number, ← inRange_self bounded]
    simp only [Netfilter.Rule.hits, Module.hits, Cidr.any_contains, Option.all_none, Option.all_some,
      List.all_cons, List.all_nil, Bool.and_true, Bool.true_and, Bool.and_eq_true, beq_iff_eq,
      Option.some.injEq]
    rw [eq_comm]
  · cases read

end

def loRule : Netfilter.Rule := { inIface := some lo, target := some .accept }

def stateRule : Netfilter.Rule :=
  { modules := [.state [.established, .related]], target := some .accept }

theorem readRule_loSpec : readRule (lineArgs loSpec) = some loRule := by decide

theorem readRule_stateSpec : readRule (lineArgs stateSpec) = some stateRule := by decide

theorem loRule_hits (ext : Ext) (p : Packet) : loRule.hits ext p = true ↔ p.inIface = lo := by
  have exact' : lo.getLast? ≠ some '+' := by decide
  simp [loRule, Netfilter.Rule.hits, ifaceHits, exact', eq_comm (a := lo)]

theorem stateRule_hits (ext : Ext) (p : Packet) :
    stateRule.hits ext p = true ↔ p.state = .established ∨ p.state = .related := by
  simp [stateRule, Netfilter.Rule.hits, Module.hits]

section
variable {policy : Policy} {baseline sorted : List BaselinePort} {rules : List Rule}
  {chain : List Netfilter.Rule}

/-- The rule that stands in the chain for a line. -/
def lineRule (words : List Text) : Netfilter.Rule := (readRule (lineArgs words)).getD {}

theorem lineRule_of_read {words : List Text} {rule : Netfilter.Rule}
    (read : readRule (lineArgs words) = some rule) : lineRule words = rule := by
  rw [lineRule, read]
  rfl

theorem chain_eq (read : ((chainWords sorted rules).map lineArgs).mapM readRule = some chain) :
    chain = (loRule :: stateRule :: sorted.map (lineRule ∘ baselineWords)) ++
      rules.map (lineRule ∘ ruleWords) := by
  have listed := List.eq_map_of_mapM_option read {}
  have rest : (chainWords sorted rules).map lineRule = (lineRule loSpec :: lineRule stateSpec ::
      sorted.map (lineRule ∘ baselineWords)) ++ rules.map (lineRule ∘ ruleWords) := by
    simp [chainWords]
  rw [lineRule_of_read readRule_loSpec, lineRule_of_read readRule_stateSpec] at rest
  rw [← rest, listed, List.map_map]
  rfl

theorem read_of_mem (read : ((chainWords sorted rules).map lineArgs).mapM readRule = some chain)
    {words : List Text} (member : words ∈ chainWords sorted rules) :
    readRule (lineArgs words) = some (lineRule words) := by
  obtain ⟨rule, found⟩ := List.exists_of_mapM_option read (List.mem_map_of_mem member)
  rw [found, lineRule_of_read found]

theorem lineRule_baselineWords (read : ((chainWords sorted rules).map lineArgs).mapM readRule = some chain)
    {bp : BaselinePort} (member : bp ∈ sorted) (valid : bp.Valid) :
    (lineRule (baselineWords bp)).target = some .accept ∧
      ∀ ext p, (lineRule (baselineWords bp)).hits ext p = true ↔ bp.covers p := by
  have inside : baselineWords bp ∈ chainWords sorted rules := by
    simp only [chainWords, List.mem_append, List.mem_map]
    exact .inl (.inr ⟨bp, member, rfl⟩)
  exact readRule_baselineWords valid (read_of_mem read inside)

/-- An admin's line matches what the rule selects and does what it says. -/
theorem lineRule_ruleWords (read : ((chainWords sorted rules).map lineArgs).mapM readRule = some chain)
    {r : Rule} (member : r ∈ rules) (formed : r.WellFormed) :
    (lineRule (ruleWords r)).verdict = some r.outcome ∧
      ∀ ext p, (lineRule (ruleWords r)).hits ext p = r.selects p := by
  obtain ⟨s, documented⟩ := Option.isSome_iff_exists.mp formed.documented
  have inside : ruleWords r ∈ chainWords sorted rules := by
    simp only [chainWords, List.mem_append, List.mem_map]
    exact .inr ⟨r, member, rfl⟩
  have line := read_of_mem read inside
  have same : lineRule (ruleWords r) = r.compiled s := by
    rw [readRule_ruleWords documented formed.acts] at line
    split at line
    · exact (Option.some.inj line).symm
    · cases line
  rw [same]
  refine ⟨compiled_verdict, fun ext p => ?_⟩
  rw [compiled_hits documented, Rule.selects, documented]
  rfl

/-- The lines above the admin's rules match exactly the exempt packets; the
order of the baseline lines does not matter. -/
theorem exempt_iff (read : ((chainWords sorted rules).map lineArgs).mapM readRule = some chain)
    (sorting : IsSorting baseline sorted) (valid : ∀ bp ∈ baseline, bp.Valid) (ext : Ext) (p : Packet) :
    (loRule :: stateRule :: sorted.map (lineRule ∘ baselineWords)).any (·.hits ext p) = true ↔
      Exempt baseline p := by
  have ports : (∃ bp ∈ sorted, (lineRule (baselineWords bp)).hits ext p = true) ↔
      ∃ bp ∈ baseline, bp.covers p := by
    constructor
    · rintro ⟨bp, member, hit⟩
      have listed := sorting.1.mem_iff.mp member
      exact ⟨bp, listed, ((lineRule_baselineWords read member (valid bp listed)).2 ext p).mp hit⟩
    · rintro ⟨bp, listed, covered⟩
      have member := sorting.1.mem_iff.mpr listed
      exact ⟨bp, member, ((lineRule_baselineWords read member (valid bp listed)).2 ext p).mpr covered⟩
  simp only [List.any_cons, Bool.or_eq_true, loRule_hits, stateRule_hits, List.any_map, List.any_eq_true,
    Function.comp_apply, ports, Exempt, or_assoc]

theorem find?_congr {α : Type} {f g : α → Bool} {xs : List α} (same : ∀ x ∈ xs, f x = g x) :
    xs.find? f = xs.find? g := by
  induction xs with
  | nil => rfl
  | cons x xs ih =>
    rw [List.find?_cons, List.find?_cons, same x (List.mem_cons_self ..),
      ih (fun y member => same y (List.mem_cons_of_mem _ member))]

/-- First match over the rendered chain is the decision the policy describes. -/
theorem traverse_chain (read : ((chainWords sorted rules).map lineArgs).mapM readRule = some chain)
    (sorting : IsSorting baseline sorted) (valid : ∀ bp ∈ baseline, bp.Valid)
    (formed : ∀ r ∈ rules, r.WellFormed) (ext : Ext) (call : Text → Packet → Option Verdict) (p : Packet) :
    (traverse ext call p chain).getD (inputPolicy policy).verdict = decision policy baseline rules p := by
  have accepts : ∀ rule ∈ loRule :: stateRule :: sorted.map (lineRule ∘ baselineWords),
      rule.target = some .accept := by
    intro rule member
    simp only [List.mem_cons, List.mem_map, Function.comp_apply] at member
    rcases member with rfl | rfl | ⟨bp, member, rfl⟩
    · rfl
    · rfl
    · exact (lineRule_baselineWords read member (valid bp (sorting.1.mem_iff.mp member))).1
  have terminal : ∀ rule ∈ rules.map (lineRule ∘ ruleWords), rule.verdict.isSome := by
    intro rule member
    obtain ⟨r, inside, rfl⟩ := List.mem_map.mp member
    rw [Function.comp_apply, (lineRule_ruleWords read inside (formed r inside)).1]
    rfl
  have found : (rules.map (lineRule ∘ ruleWords)).find? (·.hits ext p) =
      (rules.find? (·.selects p)).map (lineRule ∘ ruleWords) := by
    rw [List.find?_map]
    congr 1
    exact find?_congr fun r member => (lineRule_ruleWords read member (formed r member)).2 ext p
  have split : chain = (loRule :: stateRule :: sorted.map (lineRule ∘ baselineWords)) ++
      (rules.map (lineRule ∘ ruleWords) ++ []) := by
    rw [List.append_nil]
    exact chain_eq read
  rw [split, traverse_accepts accepts, traverse_block terminal, found, decision]
  by_cases exempt : Exempt baseline p
  · rw [if_pos ((exempt_iff read sorting valid ext p).mpr exempt), if_pos exempt]
    rfl
  · rw [if_neg (fun hit => exempt ((exempt_iff read sorting valid ext p).mp hit)), if_neg exempt]
    cases first : rules.find? (·.selects p) with
    | some r =>
      have member := List.mem_of_find?_eq_some first
      simp [(lineRule_ruleWords read member (formed r member)).1]
    | none =>
      simp only [Option.map_none, Netfilter.traverse, Option.getD_none, inputPolicy]
      split <;> rfl

end

/-- First-match evaluation of the `INPUT` chain a rendered text installs is
what the policy, the baseline and the admin's rules say. -/
theorem render_means_policy (policy : Policy) (baseline sorted : List BaselinePort) (rules : List Rule)
    (sorting : IsSorting baseline sorted)
    (valid : ∀ bp ∈ baseline, bp.Valid ∧ Clean bp.label) (formed : ∀ r ∈ rules, r.WellFormed)
    (dump : Dump) (accepted : readRestore readRule (renderSorted policy sorted rules) = some dump)
    (ext : Ext) (depth : Nat) (p : Packet) :
    ∃ table, dump.filter = some table ∧
      table.verdict ext depth .input p = decision policy baseline rules p := by
  have ports : ∀ bp ∈ sorted, bp.OneLine := by
    intro bp member
    obtain ⟨⟨proto, -⟩, clean⟩ := valid bp (sorting.1.mem_iff.mp member)
    refine ⟨?_, clean.1⟩
    rcases proto with same | same <;> rw [same] <;> decide
  have single : ∀ r ∈ rules, r.OneLine := by
    intro r member
    obtain ⟨s, documented⟩ := Option.isSome_iff_exists.mp (formed r member).documented
    exact (selector_oneLine documented (formed r member).acts).mpr (formed r member).clean.1
  have reading := readRestore_renderSorted readRule policy ports single 0
  rw [List.replicate_zero, List.append_nil, accepted] at reading
  obtain ⟨chain, read, same⟩ := Option.map_eq_some_iff.mp reading.symm
  subst same
  refine ⟨renderedTable policy chain, rfl, ?_⟩
  exact traverse_chain read sorting (fun bp member => (valid bp member).1) formed ext _ p

def sampleBaseline : List BaselinePort :=
  [⟨Word.udp, 51820, ['w', 'g']⟩, ⟨Word.tcp, 22, ['S', 'S', 'H']⟩]

/-- Web ports for one network, and everything else of that network refused. -/
def sampleRules : List Rule :=
  [⟨Field.accept, Word.tcp, ['8', '0', ',', '4', '4', '3'], ['1', '0', '.', '0', '.', '0', '.', '0', '/', '8'], []⟩,
    ⟨Field.reject, Field.any, [], ['1', '0', '.', '0', '.', '0', '.', '0', '/', '8'], ['l', 'a', 'n']⟩]

theorem sampleRules_wellFormed : ∀ r ∈ sampleRules, r.WellFormed := by
  simp only [sampleRules, List.mem_cons, List.not_mem_nil, or_false, forall_eq_or_imp, forall_eq]
  exact ⟨⟨.inl rfl, by decide, by decide⟩, ⟨.inr (.inr rfl), by decide, by decide⟩⟩

/-- A packet of that network to another port meets the second rule. -/
theorem render_means_policy_sample :
    ∃ dump table, readRestore readRule (render ⟨Field.drop⟩ sampleBaseline sampleRules) = some dump ∧
      dump.filter = some table ∧
      table.verdict ⟨fun _ _ _ => false, fun _ _ => none⟩ 0 .input
        ⟨[], [], .tcp, addrOf 10 1 2 3, 0, 1, 25, .new⟩ = .reject := by
  have accepted : (readRestore readRule (render ⟨Field.drop⟩ sampleBaseline sampleRules)).isSome := by
    decide
  obtain ⟨dump, accepted⟩ := Option.isSome_iff_exists.mp accepted
  obtain ⟨table, filter, verdict⟩ := render_means_policy ⟨Field.drop⟩ sampleBaseline _ sampleRules
    (isSorting_insertionSort sampleBaseline) (by unfold BaselinePort.Valid; decide) sampleRules_wellFormed dump accepted
    ⟨fun _ _ _ => false, fun _ _ => none⟩ 0 ⟨[], [], .tcp, addrOf 10 1 2 3, 0, 1, 25, .new⟩
  exact ⟨dump, table, accepted, filter, verdict.trans (by decide)⟩

end Protean.Firewall
