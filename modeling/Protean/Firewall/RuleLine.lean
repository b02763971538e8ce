import Protean.Firewall.Meaning

open Netfilter

namespace Protean.Firewall

/-- The arguments of a rule line once its quotes are taken off. -/
def ruleArgs (r : Rule) (comment : Text) : List Text :=
  protoParts r ++ (portParts r ++ (sourceParts r ++
    [Word.dashJ, r.action.map Char.toUpper, Word.dashM, Word.comment, Word.dashComment, comment]))

/-- The modules a port field loads. -/
def portModules (r : Rule) (proto : Option Proto) : Option (List Module) :=
  if r.portSpec = [] then some []
  else if proto = some .tcp ∨ proto = some .udp then
    if ',' ∈ r.portSpec then (readMultiport r.portSpec).map fun rs => [.multiport rs]
    else (readPortRange r.portSpec).map fun r => [.dport r.1 r.2]
  else none

def sourceRead (r : Rule) : Option Cidr :=
  if r.sourceCIDR = [] then some .any else readCidr r.sourceCIDR

def protoSeen (r : Rule) : List Text := if namesProto r then [Word.dashP] else []

def portSeen (r : Rule) : List Text :=
  if r.portSpec = [] then [] else if ',' ∈ r.portSpec then [Word.dashDports] else [Word.dashDport]

def sourceSeen (r : Rule) : List Text := if r.sourceCIDR = [] then [] else [Word.dashS]

section
variable (r : Rule) (rest : List Text)

theorem readOptions_protoParts :
    readOptions {} (protoParts r ++ rest) = (protoField r).bind fun proto =>
      readOptions ⟨{ proto := proto }, protoSeen r, []⟩ rest := by
  unfold protoParts protoField protoSeen
  by_cases named : namesProto r
  · rw [if_pos (show r.proto ≠ [] ∧ r.proto ≠ Field.any from named), if_pos named, if_pos named]
    simp only [List.cons_append, List.nil_append, readOptions]
    rw [readOption_dashP (by decide)]
    cases readProto r.proto <;> rfl
  · rw [if_neg (show ¬(r.proto ≠ [] ∧ r.proto ≠ Field.any) from named), if_neg named, if_neg named]
    rfl

theorem readOptions_portParts {rule : Netfilter.Rule} {seen : List Text} (freshM : Word.dashM ∉ seen)
    (freshDport : Word.dashDport ∉ seen) (freshDports : Word.dashDports ∉ seen) :
    readOptions ⟨rule, seen, []⟩ (portParts r ++ rest) = (portModules r rule.proto).bind fun ms =>
      readOptions ⟨{ rule with modules := rule.modules ++ ms }, portSeen r ++ seen, []⟩ rest := by
  unfold portParts portModules portSeen
  by_cases empty : r.portSpec = []
  · simp [empty]
  · rw [if_pos empty, if_neg empty, if_neg empty]
    by_cases comma : ',' ∈ r.portSpec
    · rw [if_pos comma, if_pos comma, if_pos comma]
      simp only [List.cons_append, List.nil_append, readOptions]
      rw [readOption_dashM (by decide) freshM, Option.bind_some,
        readOption_dashDports freshDports (List.mem_cons_self ..)]
      by_cases ports : rule.proto = some .tcp ∨ rule.proto = some .udp
      · rw [if_pos ports, if_pos ((hasPorts_iff rule).mpr ports)]
        cases readMultiport r.portSpec <;> rfl
      · rw [if_neg ports, if_neg (fun has => ports ((hasPorts_iff rule).mp has))]
        rfl
    · rw [if_neg comma, if_neg comma, if_neg comma]
      simp only [List.cons_append, List.nil_append, readOptions]
      rw [readOption_dashDport freshDport]
      by_cases ports : rule.proto = some .tcp ∨ rule.proto = some .udp
      · rw [if_pos ports, if_pos ((hasPorts_iff rule).mpr ports)]
        cases readPortRange r.portSpec <;> rfl
      · rw [if_neg ports, if_neg (fun has => ports ((hasPorts_iff rule).mp has))]
        rfl

theorem readOptions_sourceParts {rule : Netfilter.Rule} {seen : List Text} (anywhere : rule.src = .any)
    (fresh : Word.dashS ∉ seen) :
    readOptions ⟨rule, seen, []⟩ (sourceParts r ++ rest) = (sourceRead r).bind fun c =>
      readOptions ⟨{ rule with src := c }, sourceSeen r ++ seen, []⟩ rest := by
  unfold sourceParts sourceRead sourceSeen
  by_cases empty : r.sourceCIDR = []
  · simp [empty, ← anywhere]
  · rw [if_pos empty, if_neg empty, if_neg empty]
    simp only [List.cons_append, List.nil_append, readOptions]
    rw [readOption_dashS fresh]
    cases readCidr r.sourceCIDR <;> rfl

theorem mem_protoSeen {w : Text} (member : w ∈ protoSeen r) : w = Word.dashP := by
  unfold protoSeen at member
  split at member <;> simp_all

theorem mem_portSeen {w : Text} (member : w ∈ portSeen r) :
    w = Word.dashDports ∨ w = Word.dashDport := by
  unfold portSeen at member
  split at member
  · cases member
  · split at member <;> simp_all

theorem mem_sourceSeen {w : Text} (member : w ∈ sourceSeen r) : w = Word.dashS := by
  unfold sourceSeen at member
  split at member <;> simp_all

/-- Nothing before the target has used up the options from there on. -/
theorem fresh_after_source {w : Text} (later : w ∈ [Word.dashJ, Word.dashM, Word.dashComment]) :
    w ∉ sourceSeen r ++ (portSeen r ++ protoSeen r) := by
  intro member
  have used : w ∈ [Word.dashS, Word.dashDports, Word.dashDport, Word.dashP] := by
    simp only [List.mem_append] at member
    rcases member with source | port | proto
    · simp [mem_sourceSeen r source]
    · rcases mem_portSeen r port with rfl | rfl <;> simp
    · simp [mem_protoSeen r proto]
  simp only [List.mem_cons, List.not_mem_nil, or_false] at later
  rcases later with rfl | rfl | rfl <;> revert used <;> decide

theorem fresh_after_target {w : Text} (later : w ∈ [Word.dashM, Word.dashComment]) :
    w ∉ Word.dashJ :: (sourceSeen r ++ (portSeen r ++ protoSeen r)) := by
  have other : w ≠ Word.dashJ := by
    rintro rfl
    revert later
    decide
  rw [List.mem_cons, not_or]
  exact ⟨other, fresh_after_source r (List.mem_cons_of_mem _ later)⟩

/-- How the arguments of a rule line are read, whatever its fields hold. -/
theorem readRule_ruleArgs (comment : Text) :
    readRule (ruleArgs r comment) = (protoField r).bind fun proto =>
      (portModules r proto).bind fun ms => (sourceRead r).bind fun src =>
        if commentFits comment then
          some { src := src, proto := proto, modules := ms ++ [.comment comment],
                 target := some (readTarget (r.action.map Char.toUpper)) }
        else none := by
  have freshP : ∀ w ∈ [Word.dashM, Word.dashDport, Word.dashDports], w ∉ protoSeen r := by
    intro w later member
    rw [mem_protoSeen r member] at later
    revert later
    decide
  have freshS : Word.dashS ∉ portSeen r ++ protoSeen r := by
    intro member
    rcases List.mem_append.mp member with port | proto
    · rcases mem_portSeen r port with same | same <;> revert same <;> decide
    · have same := mem_protoSeen r proto
      revert same
      decide
  rw [readRule, ruleArgs, readOptions_protoParts]
  cases protoField r with
  | none => rfl
  | some proto =>
    rw [Option.bind_some, Option.bind_some, readOptions_portParts r _ (freshP _ (by simp))
      (freshP _ (by simp)) (freshP _ (by simp))]
    cases portModules r proto with
    | none => rfl
    | some ms =>
      rw [Option.bind_some, Option.bind_some, readOptions_sourceParts r _ rfl freshS]
      cases sourceRead r with
      | none => rfl
      | some src =>
        rw [Option.bind_some, Option.bind_some, readOptions,
          readOption_dashJ (fresh_after_source r (by simp)), Option.bind_some,
          readOptions_comment (fresh_after_target r (by simp)) (fresh_after_target r (by simp))]
        split <;> simp [Netfilter.Rule.addModule]

end

/-- A plain word, as the splitter keeps it. -/
def PlainWord (w : Text) : Prop := w ≠ [] ∧ ∀ c ∈ w, Plain c

/-- Plain words and one quoted text come out of the splitter as they went in,
the text without its quotes. -/
theorem lineArgs_quoted {ws : List Text} {body : Text} (plain : ∀ w ∈ ws, PlainWord w)
    (noQuote : '"' ∉ body) : lineArgs (ws ++ [quoted body]) = ws ++ [unescape body] := by
  unfold lineArgs
  induction ws with
  | nil =>
    have bare : joinSpaces ([] ++ [quoted body]) = '"' :: (body ++ ['"']) := by
      simp [joinSpaces, List.intercalate, quoted]
    rw [bare, args, splitArgs, if_pos rfl, splitArgs_quoted noQuote]
    rfl
  | cons w ws ih =>
    obtain ⟨nonempty, chars⟩ := plain w (List.mem_cons_self ..)
    rw [List.cons_append, joinSpaces_cons (by simp), args_word chars nonempty,
      ih (fun v member => plain v (List.mem_cons_of_mem _ member))]
    rfl

/-- A rule whose fields hold neither blanks nor quotes. -/
structure Rule.Plain (r : Rule) : Prop where
  proto : ∀ c ∈ r.proto, Netfilter.Plain c
  portSpec : ∀ c ∈ r.portSpec, Netfilter.Plain c
  sourceCIDR : ∀ c ∈ r.sourceCIDR, Netfilter.Plain c
  action : PlainWord (r.action.map Char.toUpper)

theorem lineArgs_ruleWords {r : Rule} (plain : r.Plain) :
    lineArgs (ruleWords r) = ruleArgs r (unescape (ruleComment r)) := by
  have fixed : ∀ w ∈ [Word.dashP, Word.dashM, Word.multiport, Word.dashDports, Word.dashDport,
      Word.dashS, Word.dashJ, Word.comment, Word.dashComment], PlainWord w := by
    unfold PlainWord Netfilter.Plain
    decide
  have proto : ∀ w ∈ protoParts r, PlainWord w := by
    unfold protoParts
    split
    · rename_i named
      simp only [List.mem_cons, List.not_mem_nil, or_false, forall_eq_or_imp, forall_eq]
      exact ⟨fixed _ (by simp), named.1, plain.proto⟩
    · simp
  have port : ∀ w ∈ portParts r, PlainWord w := by
    unfold portParts
    split
    · rename_i given
      split <;> simp only [List.mem_cons, List.not_mem_nil, or_false, forall_eq_or_imp, forall_eq]
      · exact ⟨fixed _ (by simp), fixed _ (by simp), fixed _ (by simp), given, plain.portSpec⟩
      · exact ⟨fixed _ (by simp), given, plain.portSpec⟩
    · simp
  have source : ∀ w ∈ sourceParts r, PlainWord w := by
    unfold sourceParts
    split
    · rename_i given
      simp only [List.mem_cons, List.not_mem_nil, or_false, forall_eq_or_imp, forall_eq]
      exact ⟨fixed _ (by simp), given, plain.sourceCIDR⟩
    · simp
  have shape : ruleWords r = (protoParts r ++ (portParts r ++ (sourceParts r ++
      [Word.dashJ, r.action.map Char.toUpper, Word.dashM, Word.comment, Word.dashComment]))) ++
      [quoted (ruleComment r)] := by
    simp [ruleWords, commentParts]
  rw [shape, lineArgs_quoted ?_ (ruleComment_noQuote r)]
  · simp [ruleArgs]
  · intro w member
    simp only [List.mem_append, List.mem_cons, List.not_mem_nil, or_false] at member
    rcases member with inside | inside | inside | rfl | rfl | rfl | rfl | rfl
    · exact proto w inside
    · exact port w inside
    · exact source w inside
    · exact fixed _ (by simp)
    · exact plain.action
    · exact fixed _ (by simp)
    · exact fixed _ (by simp)
    · exact fixed _ (by simp)

/-- A comma list has to fit the multiport module. -/
def Rule.PortsFit (r : Rule) : Prop := ',' ∈ r.portSpec → portPlaces r.portSpec ≤ 15

instance (r : Rule) : Decidable r.PortsFit := inferInstanceAs (Decidable (_ → _))

/-- The modules that stand for a port field the panel documents. -/
def fieldModules (r : Rule) : Option (List (Port × Port)) → List Module
  | none => []
  | some rs => if ',' ∈ r.portSpec then [.multiport rs] else rs.map fun x => .dport x.1 x.2

section
variable {r : Rule} {proto : Option Proto} {ports : Option (List (Port × Port))}

/-- Without a comma the field is a single range. -/
theorem fieldPorts_single {t : Text} {rs : List (Port × Port)} (comma : ',' ∉ t)
    (field : fieldPorts t = some rs) : ∃ x, rs = [x] ∧ fieldRange t = some x := by
  rw [fieldPorts, List.splitOn_eq_singleton comma, List.mapM_option_eq_some] at field
  cases field with
  | cons head tail =>
    cases tail
    exact ⟨_, rfl, head⟩

theorem portModules_eq (field : portField r proto = some ports) :
    portModules r proto = if r.PortsFit then some (fieldModules r ports) else none := by
  unfold portField at field
  unfold portModules
  by_cases empty : r.portSpec = []
  · rw [if_pos empty] at field ⊢
    have fits : r.PortsFit := fun comma => by rw [empty] at comma; cases comma
    cases field
    rw [if_pos fits]
    rfl
  · rw [if_neg empty] at field ⊢
    by_cases has : proto = some .tcp ∨ proto = some .udp
    · rw [if_pos has] at field ⊢
      obtain ⟨rs, listed, rfl⟩ := Option.map_eq_some_iff.mp field
      by_cases comma : ',' ∈ r.portSpec
      · rw [if_pos comma, readMultiport, fieldPorts_read listed, Option.bind_some]
        simp only [Rule.PortsFit, comma, true_imp_iff, fieldModules, if_true]
        split <;> rfl
      · have fits : r.PortsFit := fun inside => absurd inside comma
        obtain ⟨x, rfl, range⟩ := fieldPorts_single comma listed
        rw [if_neg comma, fieldRange_read range, if_pos fits]
        simp [fieldModules, comma]
    · rw [if_neg has] at field
      cases field

theorem fieldModules_hits (field : portField r proto = some ports) (ext : Ext) (p : Packet) :
    (fieldModules r ports).all (·.hits ext p) =
      ports.all fun rs => rs.any fun x => inRange x.1 x.2 p.dport := by
  cases ports with
  | none => rfl
  | some rs =>
    by_cases comma : ',' ∈ r.portSpec
    · simp [fieldModules, comma, Module.hits]
    · have listed : fieldPorts r.portSpec = some rs := by
        unfold portField at field
        split at field
        · cases field
        · split at field
          · obtain ⟨_, listed, same⟩ := Option.map_eq_some_iff.mp field
            cases same
            exact listed
          · cases field
      obtain ⟨x, rfl, -⟩ := fieldPorts_single comma listed
      simp [fieldModules, comma, Module.hits]

end

/-- One of the three actions. -/
def Rule.Acts (r : Rule) : Prop :=
  r.action = Field.accept ∨ r.action = Field.drop ∨ r.action = Field.reject

def Rule.outcome (r : Rule) : Verdict :=
  if r.action = Field.accept then .accept else if r.action = Field.drop then .drop else .reject

def Verdict.target : Verdict → Target
  | .accept => .accept
  | .drop => .drop
  | .reject => .reject

theorem readTarget_action {r : Rule} (acts : r.Acts) :
    readTarget (r.action.map Char.toUpper) = Verdict.target r.outcome := by
  unfold Rule.outcome
  rcases acts with same | same | same <;> rw [same] <;> decide

/-- The rule a documented rule line installs. -/
def Rule.compiled (r : Rule) (s : Selector) : Netfilter.Rule where
  src := s.source
  proto := s.proto
  modules := fieldModules r s.ports ++ [.comment (unescape (ruleComment r))]
  target := some (Verdict.target r.outcome)

section
variable {r : Rule} {s : Selector}

theorem selector_parts (documented : r.selector = some s) :
    protoField r = some s.proto ∧ portField r s.proto = some s.ports ∧
      sourceField r = some s.source := by
  obtain ⟨proto, first, documented⟩ := Option.bind_eq_some_iff.mp documented
  obtain ⟨ports, second, documented⟩ := Option.bind_eq_some_iff.mp documented
  obtain ⟨source, third, rfl⟩ := Option.map_eq_some_iff.mp documented
  exact ⟨first, second, third⟩

theorem compiled_verdict : (r.compiled s).verdict = some r.outcome := by
  unfold Netfilter.Rule.verdict Rule.compiled
  cases r.outcome <;> rfl

theorem compiled_hits (documented : r.selector = some s) (ext : Ext) (p : Packet) :
    (r.compiled s).hits ext p = s.selects p := by
  have modules := fieldModules_hits (selector_parts documented).2.1 ext p
  simp only [Netfilter.Rule.hits, Rule.compiled, Selector.selects, List.all_append, modules]
  simp only [Module.hits, Cidr.any_contains, Option.all_none, List.all_cons, List.all_nil, Bool.and_true]
  ac_rfl

/-- Documented fields hold no blanks, no quotes and no line breaks. -/
theorem selector_chars (documented : r.selector = some s) :
    ∀ c, c ∈ r.proto ∨ c ∈ r.portSpec ∨ c ∈ r.sourceCIDR → Netfilter.Plain c ∧ c ≠ '\n' := by
  obtain ⟨proto, ports, source⟩ := selector_parts documented
  rintro c (member | member | member)
  · have known : r.proto ∈ [[], Field.any, Word.tcp, Word.udp, Word.icmp] := by
      by_contra unknown
      simp only [List.mem_cons, List.not_mem_nil, or_false, not_or] at unknown
      obtain ⟨given, notAny, notTcp, notUdp, notIcmp⟩ := unknown
      rw [protoField, if_pos ⟨given, notAny⟩] at proto
      simp [readProto, notTcp, notUdp, notIcmp] at proto
    have all : ∀ t ∈ [[], Field.any, Word.tcp, Word.udp, Word.icmp], ∀ c ∈ t,
        Netfilter.Plain c ∧ c ≠ '\n' := by
      unfold Netfilter.Plain
      decide
    exact all _ known c member
  · unfold portField at ports
    split at ports
    · rename_i empty
      rw [empty] at member
      cases member
    · split at ports
      · obtain ⟨rs, listed, -⟩ := Option.map_eq_some_iff.mp ports
        exact (fieldPorts_fieldChar listed c member).plain
      · cases ports
  · unfold sourceField at source
    split at source
    · rename_i empty
      rw [empty] at member
      cases member
    · exact (fieldCidr_fieldChar source c member).plain

theorem selector_plain (documented : r.selector = some s) (acts : r.Acts) : r.Plain where
  proto := fun c member => (selector_chars documented c (.inl member)).1
  portSpec := fun c member => (selector_chars documented c (.inr (.inl member))).1
  sourceCIDR := fun c member => (selector_chars documented c (.inr (.inr member))).1
  action := by
    rcases acts with same | same | same <;> rw [same] <;> (unfold PlainWord Netfilter.Plain; decide)

/-- So only the comment of such a rule can break its line. -/
theorem selector_oneLine (documented : r.selector = some s) (acts : r.Acts) :
    r.OneLine ↔ '\n' ∉ r.comment := by
  have chars := selector_chars documented
  refine ⟨fun single => single.2.2.2.2, fun comment => ⟨?_, ?_, ?_, ?_, comment⟩⟩
  · rcases acts with same | same | same <;> rw [same] <;> decide
  · exact fun member => (chars _ (.inl member)).2 rfl
  · exact fun member => (chars _ (.inr (.inl member))).2 rfl
  · exact fun member => (chars _ (.inr (.inr member))).2 rfl

/-- A documented rule line reads back as what it describes, if it fits. -/
theorem readRule_ruleWords (documented : r.selector = some s) (acts : r.Acts) :
    readRule (lineArgs (ruleWords r)) =
      if r.PortsFit ∧ commentFits (unescape (ruleComment r)) then some (r.compiled s) else none := by
  obtain ⟨proto, ports, source⟩ := selector_parts documented
  have cidr : sourceRead r = some s.source := by
    unfold sourceField at source
    unfold sourceRead
    split at source
    · rename_i empty
      rw [if_pos empty]
      exact source
    · rename_i given
      rw [if_neg given]
      exact fieldCidr_read source
  rw [lineArgs_ruleWords (selector_plain documented acts), readRule_ruleArgs, proto, Option.bind_some,
    portModules_eq ports]
  by_cases fits : r.PortsFit
  · rw [if_pos fits, Option.bind_some, cidr, Option.bind_some, readTarget_action acts]
    simp only [fits, true_and]
    rfl
  · simp [fits]

end

end Protean.Firewall
