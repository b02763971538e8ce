import Protean.Shell
import Protean.Firewall.Instances
import Protean.Firewall.RuleLine

open Netfilter

namespace Protean.Firewall

/-- Neither a rule nor the text of all of them leaves its place: the text has
its lines and no others, the shell runs the verb on it and nothing else, and
each line matches what the rule's fields describe. -/
structure NoInjection (policy : Policy) (baseline sorted : List BaselinePort) (rules : List Rule)
    (window sshPort : Int) : Prop where
  lines : Text.lines (renderSorted policy sorted rules) = renderedLines policy sorted rules ++ [[]]
  command : Shell.parse (runVerb firewallApplyVerb (applyArgs window sshPort baseline)
      (renderSorted policy sorted rules)) =
    some ⟨[sudoWord, installerPath, firewallApplyVerb] ++
      (applyArgs window sshPort baseline).filter (· ≠ []),
      renderSorted policy sorted rules ++ ['\n'], []⟩
  matching : ∀ r ∈ rules, ∃ s spec rule, r.selector = some s ∧
    args (renderRule r) = Word.dashA :: Word.input :: spec ∧ readRule spec = some rule ∧
      ∀ ext p, rule.hits ext p = s.selects p

/-- A row of the baseline as the panel makes them. -/
def BaselinePort.Tidy (bp : BaselinePort) : Prop :=
  (bp.proto = Word.tcp ∨ bp.proto = Word.udp) ∧ '\n' ∉ bp.label

/-- What a saved rule has to be like, and is not checked to be: its comment is
one line, its other fields are written as documented, and neither its ports
nor its comment are more than the packet filter holds. -/
structure Rule.Harmless (r : Rule) : Prop where
  oneLine : '\n' ∉ r.comment
  documented : r.selector.isSome
  portsFit : r.PortsFit
  commentFits : commentFits (unescape (ruleComment r))

section
variable {window sshPort : Int} {baseline : List BaselinePort}

theorem safe_itoa (n : Int) : ∀ c ∈ Text.itoa n, Shell.safe c := by
  have digits : ∀ m, ∀ c ∈ Text.decimal m, Shell.safe c := by
    intro m c member
    have digit := Text.isDigit_of_mem_decimal member
    simp [Shell.safe, Char.isAlphanum, digit]
  cases n with
  | ofNat m => exact digits m
  | negSucc m =>
    intro c member
    rcases List.mem_cons.mp member with rfl | member
    · decide
    · exact digits _ c member

theorem safe_criticalPortsCSV (tidy : ∀ bp ∈ baseline, bp.Tidy) :
    ∀ c ∈ criticalPortsCSV baseline sshPort, Shell.safe c := by
  intro c member
  rw [criticalPortsCSV_eq] at member
  by_cases comma : c = ','
  · rw [comma]; decide
  · obtain ⟨entry, listed, member⟩ := (Text.mem_intercalate comma _).mp member
    obtain ⟨bp, inside, rfl⟩ := List.mem_map.mp listed
    have proto := (tidy bp (List.mem_of_mem_filter inside)).1
    rcases List.mem_append.mp member with member | member
    · have names : ∀ w ∈ [Word.tcp, Word.udp], ∀ c ∈ w, Shell.safe c := by decide
      exact names _ (by rcases proto with same | same <;> simp [same]) c member
    · rcases List.mem_cons.mp member with rfl | member
      · decide
      · exact safe_itoa _ c member

theorem safe_applyArgs (tidy : ∀ bp ∈ baseline, bp.Tidy) :
    ∀ a ∈ applyArgs window sshPort baseline, ∀ c ∈ a, Shell.safe c := by
  intro a member
  simp only [applyArgs, List.mem_cons, List.not_mem_nil, or_false] at member
  rcases member with rfl | rfl | rfl
  · exact safe_itoa window
  · exact safe_itoa sshPort
  · exact safe_criticalPortsCSV tidy

end

/-- The command line is its words, the operator and the here-document. -/
theorem runVerb_eq (verb : Text) (args : List Text) {stdin : Text} (some' : stdin ≠ []) :
    runVerb verb args stdin =
      [' '].intercalate ([sudoWord, installerPath, verb] ++ args ++ [Shell.heredocOp heredocEnd]) ++
        '\n' :: (stdin ++ '\n' :: heredocEnd) := by
  have merge := @Text.intercalate_merge [' ']
  have join : ∀ (args : List Text) (cmd last : Text),
      args.foldl (fun cmd a => cmd ++ ' ' :: a) cmd ++ ' ' :: last =
        [' '].intercalate (cmd :: (args ++ [last])) := by
    intro args
    induction args with
    | nil => simp [List.intercalate]
    | cons a args ih =>
      intro cmd last
      rw [List.foldl_cons, ih]
      exact merge cmd a (args ++ [last])
  have start : [' '].intercalate ([sudoWord, installerPath, verb] ++ args ++ [Shell.heredocOp heredocEnd]) =
      [' '].intercalate ((sudoWord ++ ' ' :: installerPath ++ ' ' :: verb) ::
        (args ++ [Shell.heredocOp heredocEnd])) := by
    simp only [List.cons_append, List.nil_append, ← merge]
  rw [start, ← join]
  simp [runVerb, some', Shell.heredocOp]

/-- What the shell makes of a verb whose text does not hold the delimiter. -/
theorem parse_runVerb {verb : Text} {args body : List Text} (plainVerb : ∀ c ∈ verb, Shell.safe c)
    (named : verb ≠ []) (plain : ∀ a ∈ args, ∀ c ∈ a, Shell.safe c) (some' : body ≠ [])
    (single : ∀ l ∈ body, '\n' ∉ l) (open' : heredocEnd ∉ body) :
    Shell.parse (runVerb verb args (Text.unlines body)) =
      some ⟨[sudoWord, installerPath, verb] ++ args.filter (· ≠ []), Text.unlines body ++ ['\n'], []⟩ := by
  have fixed : ∀ w ∈ [sudoWord, installerPath], w ≠ [] ∧ ∀ c ∈ w, Shell.safe c := by decide
  have filled : Text.unlines body ≠ [] := by
    cases body with
    | nil => exact absurd rfl some'
    | cons l body => simp [Text.unlines]
  have parsed := @Shell.parse_heredoc ([sudoWord, installerPath, verb] ++ args) (body ++ [[]]) heredocEnd
    ?_ (by decide) ?_ ?_
  · have words : ([sudoWord, installerPath, verb] ++ args).filter (· ≠ []) =
        [sudoWord, installerPath, verb] ++ args.filter (· ≠ []) := by
      rw [List.filter_append]
      simp [named, (fixed sudoWord (by simp)).1, (fixed installerPath (by simp)).1]
    have last : Text.unlines (body ++ [[]]) = Text.unlines body ++ ['\n'] := Text.unlines_append _ _
    rw [words, last, List.append_assoc (Text.unlines body)] at parsed
    rw [runVerb_eq _ _ filled]
    exact parsed
  · intro w member
    simp only [List.cons_append, List.nil_append, List.mem_cons] at member
    rcases member with rfl | rfl | rfl | member
    · exact (fixed _ (by simp)).2
    · exact (fixed _ (by simp)).2
    · exact plainVerb
    · exact plain w member
  · simpa [or_imp, forall_and] using single
  · simpa using ⟨open', by decide⟩

section
variable {policy : Policy} {baseline sorted : List BaselinePort} {rules : List Rule} {window sshPort : Int}

/-- No line of a rendered text is the end of the here-document. -/
theorem heredocEnd_not_mem : heredocEnd ∉ renderedLines policy sorted rules := by
  have line : ∀ words, (inputLine words).head? ≠ heredocEnd.head? := by
    intro words
    have start : (inputLine words).head? = some '-' := by cases words <;> rfl
    rw [start]
    decide
  have header : ∀ l ∈ headerLines policy, l.head? ≠ heredocEnd.head? := by
    intro l member
    simp only [headerLines, List.mem_cons, List.not_mem_nil, or_false] at member
    have chain : ∀ name words, (joinSpaces ((':' :: name) :: words)).head? = some ':' := by
      intro name words
      cases words <;> rfl
    rcases member with rfl | rfl | rfl | rfl | rfl | rfl
    · decide
    · rw [chain]; decide
    · rw [chain]; decide
    · rw [chain]; decide
    · exact line _
    · exact line _
  intro member
  simp only [renderedLines, List.mem_append, List.mem_map, List.mem_singleton] at member
  rcases member with ((member | ⟨bp, -, same⟩) | ⟨r, -, same⟩) | same
  · exact header _ member rfl
  · exact line _ (congrArg List.head? same)
  · exact line _ (congrArg List.head? same)
  · exact absurd same (by decide)

theorem noInjection_of_harmless (acts : ∀ r ∈ rules, r.Acts) (sorting : IsSorting baseline sorted)
    (tidy : ∀ bp ∈ baseline, bp.Tidy) (harmless : ∀ r ∈ rules, r.Harmless) :
    NoInjection policy baseline sorted rules window sshPort := by
  have ports : ∀ bp ∈ sorted, bp.OneLine := by
    intro bp member
    obtain ⟨proto, label⟩ := tidy bp (sorting.1.mem_iff.mp member)
    refine ⟨?_, label⟩
    rcases proto with same | same <;> rw [same] <;> decide
  have single : ∀ r ∈ rules, r.OneLine := by
    intro r member
    obtain ⟨s, documented⟩ := Option.isSome_iff_exists.mp (harmless r member).documented
    exact (selector_oneLine documented (acts r member)).mpr (harmless r member).oneLine
  have oneLine : ∀ l ∈ renderedLines policy sorted rules, '\n' ∉ l := renderedLines_oneLine ports single
  refine ⟨Text.lines_unlines oneLine, ?_, fun r member => ?_⟩
  · exact parse_runVerb (by decide) (by decide) (safe_applyArgs tidy) (by simp [renderedLines]) oneLine
      heredocEnd_not_mem
  · obtain ⟨s, documented⟩ := Option.isSome_iff_exists.mp (harmless r member).documented
    have fits := And.intro (harmless r member).portsFit (harmless r member).commentFits
    refine ⟨s, lineArgs (ruleWords r), r.compiled s, documented, args_inputLine (by simp [ruleWords]), ?_,
      compiled_hits documented⟩
    rw [readRule_ruleWords documented (acts r member), if_pos fits]

theorem harmless_of_noInjection (acts : ∀ r ∈ rules, r.Acts)
    (safe : NoInjection policy baseline sorted rules window sshPort) : ∀ r ∈ rules, r.Harmless := by
  intro r member
  obtain ⟨s, spec, rule, documented, line, read, -⟩ := safe.matching r member
  have same : spec = lineArgs (ruleWords r) := by
    have whole : args (renderRule r) = Word.dashA :: Word.input :: lineArgs (ruleWords r) :=
      args_inputLine (by simp [ruleWords])
    rw [line] at whole
    simpa using whole
  rw [same, readRule_ruleWords documented (acts r member)] at read
  have fits : r.PortsFit ∧ commentFits (unescape (ruleComment r)) = true := by
    by_contra misfit
    rw [if_neg misfit] at read
    cases read
  have single : '\n' ∉ renderRule r := by
    have inside : renderRule r ∈ Text.lines (renderSorted policy sorted rules) := by
      rw [safe.lines]
      simp [renderedLines, List.mem_map_of_mem member]
    exact Text.not_mem_of_mem_splitOn inside
  exact ⟨((renderRule_oneLine r).mp single).2.2.2.2, by rw [documented]; rfl, fits.1, fits.2⟩

end

theorem toFirewallRules_acts {req : List RuleReq} {stored : List FirewallRule}
    (put : apiFirewallRulesPut req = .ok stored) : ∀ r ∈ toFirewallRules stored, r.Acts := by
  intro r member
  obtain ⟨row, enabled, rfl⟩ := List.mem_map.mp member
  exact (checkRules_accepted put row (List.mem_of_mem_filter enabled)).1

theorem portLabel_oneLine {inst : ServerInstance} (named : validInstanceName inst.localName) :
    '\n' ∉ portLabel inst := by
  have name : '\n' ∉ inst.localName := by
    cases shape : inst.localName with
    | nil => simp
    | cons c cs =>
      rw [shape, validInstanceName, Bool.and_eq_true, List.all_eq_true] at named
      intro member
      rcases List.mem_cons.mp member with same | member
      · rw [← same] at named
        exact absurd named.1 (by decide)
      · exact absurd (named.2 _ member) (by decide)
  have kind : ∀ t, '\n' ∉ providerTypeLabel t := by
    intro t
    cases t <;> decide
  have brackets : '\n' ∉ " (".toList ∧ '\n' ∉ ")".toList := by decide
  simp only [portLabel, List.mem_append, not_or]
  exact ⟨⟨⟨kind _, brackets.1⟩, name⟩, brackets.2⟩

/-- The panel's own rows are tidy when its instances were created under valid names. -/
theorem instancePort_tidy {tmpl : Template} {row : Row} (named : validInstanceName row.1.localName) :
    ∀ ip ∈ instancePort tmpl row, (ip.proto = Word.tcp ∨ ip.proto = Word.udp) ∧ '\n' ∉ ip.label := by
  have label := portLabel_oneLine named
  have natT : '\n' ∉ portLabel row.1 ++ " (NAT-T)".toList := by simp [label]
  intro ip member
  unfold instancePort at member
  split at member
  · cases member
  · split at member
    · cases member
    · split at member
      · split at member
        · rw [List.mem_singleton.mp member]
          exact ⟨.inr rfl, label⟩
        · cases member
      · split at member
        · rw [List.mem_singleton.mp member]
          exact ⟨.inr rfl, label⟩
        · cases member
      · split at member
        · rw [List.mem_singleton.mp member]
          refine ⟨?_, label⟩
          dsimp only
          split
          · exact .inl rfl
          · exact .inr rfl
        · cases member
      · simp only [List.mem_cons, List.not_mem_nil, or_false] at member
        rcases member with rfl | rfl
        · exact ⟨.inr rfl, label⟩
        · exact ⟨.inr rfl, natT⟩
      · split at member
        · cases member
        · split at member
          · split at member
            · rw [List.mem_singleton.mp member]
              exact ⟨.inl rfl, label⟩
            · cases member
          · cases member

theorem serverBaseline_tidy {tmpl : Template} {server : Server} {rows : List Row}
    (named : ∀ row ∈ rows, validInstanceName row.1.localName) :
    ∀ bp ∈ serverBaseline tmpl server rows, bp.Tidy := by
  have labels : '\n' ∉ "SSH".toList ∧ '\n' ∉ "Panel (web)".toList := by decide
  intro bp member
  simp only [serverBaseline, computeBaseline, List.mem_append, List.mem_singleton] at member
  rcases member with (rfl | instances) | panel
  · exact ⟨.inl rfl, labels.1⟩
  · obtain ⟨ip, kept, rfl⟩ := List.mem_map.mp instances
    obtain ⟨row, inside, member⟩ := List.mem_flatMap.mp (List.mem_of_mem_filter kept)
    split at member
    · exact instancePort_tidy (named row inside) ip member
    · cases member
  · split at panel
    · obtain ⟨p, -, rfl⟩ := List.mem_map.mp panel
      exact ⟨.inl rfl, labels.2⟩
    · cases panel

/-- The rules a saved draft applies stay in their places exactly when each of
them is harmless. -/
theorem saved_rules_inject_iff (req : List RuleReq) (stored : List FirewallRule)
    (put : apiFirewallRulesPut req = .ok stored) (policy : Policy) (tmpl : Template) (server : Server)
    (rows : List Row) (named : ∀ row ∈ rows, validInstanceName row.1.localName)
    (sorted : List BaselinePort) (sorting : IsSorting (serverBaseline tmpl server rows) sorted) (window : Int) :
    NoInjection policy (serverBaseline tmpl server rows) sorted (toFirewallRules stored) window server.sshPort ↔
      ∀ r ∈ toFirewallRules stored, r.Harmless :=
  ⟨harmless_of_noInjection (toFirewallRules_acts put),
    noInjection_of_harmless (toFirewallRules_acts put) sorting (serverBaseline_tidy named)⟩

/-- A comment that ends the here-document and leaves a line to the shell. -/
def rebootRow : RuleReq where
  action := Field.drop
  proto := Word.tcp
  portSpec := []
  sourceCIDR := []
  comment := '\n' :: heredocEnd ++ ['\n', 'r', 'e', 'b', 'o', 'o', 't', '\n']
  enabled := true

def webRow : RuleReq where
  action := Field.accept
  proto := Word.tcp
  portSpec := ['8', '0', ',', '4', '4', '3']
  sourceCIDR := ['1', '0', '.', '0', '.', '0', '.', '0', '/', '8']
  comment := ['w', 'e', 'b']
  enabled := true

/-- The baseline of a host with one WireGuard instance. -/
def wgBaseline : List BaselinePort := serverBaseline sampleTemplate ⟨22, false, []⟩ [wgRow]

theorem saved_rules_inject_iff_web :
    ∃ stored, apiFirewallRulesPut [webRow] = .ok stored ∧
      NoInjection ⟨Field.drop⟩ wgBaseline wgBaseline (toFirewallRules stored) 60 22 := by
  refine ⟨[⟨0, webRow.action, webRow.proto, webRow.portSpec, webRow.sourceCIDR, webRow.comment, true⟩], rfl, ?_⟩
  refine (saved_rules_inject_iff [webRow] _ rfl ⟨Field.drop⟩ sampleTemplate ⟨22, false, []⟩ [wgRow] (by decide)
    wgBaseline ⟨.refl _, by decide⟩ 60).mpr ?_
  intro r member
  rcases List.mem_singleton.mp member with rfl
  exact ⟨by decide, by decide, by unfold Rule.PortsFit; decide, by decide⟩

/-- The panel saves such a comment, and the shell that was to run one verb has
`reboot` as its next line. -/
theorem comment_runs_command :
    ∃ stored, apiFirewallRulesPut [rebootRow] = .ok stored ∧
      (Shell.parse (runVerb firewallApplyVerb (applyArgs 60 22 wgBaseline)
          (renderSorted ⟨Field.drop⟩ wgBaseline (toFirewallRules stored)))).map
        (fun command => (command.argv, command.rest.head?)) =
          some ([sudoWord, installerPath, firewallApplyVerb] ++ applyArgs 60 22 wgBaseline,
            some ['r', 'e', 'b', 'o', 'o', 't']) ∧
      ¬NoInjection ⟨Field.drop⟩ wgBaseline wgBaseline (toFirewallRules stored) 60 22 := by
  refine ⟨[⟨0, rebootRow.action, rebootRow.proto, [], [], rebootRow.comment, true⟩], rfl, by decide, ?_⟩
  intro safe
  exact absurd safe.lines (by decide)

end Protean.Firewall
