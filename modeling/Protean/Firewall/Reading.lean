import Protean.Firewall.Render

open Netfilter

namespace Protean.Firewall

/-- A rule none of whose fields breaks its line. -/
def Rule.OneLine (r : Rule) : Prop :=
  '\n' ∉ r.action ∧ '\n' ∉ r.proto ∧ '\n' ∉ r.portSpec ∧ '\n' ∉ r.sourceCIDR ∧ '\n' ∉ r.comment

def BaselinePort.OneLine (bp : BaselinePort) : Prop := '\n' ∉ bp.proto ∧ '\n' ∉ bp.label

instance (r : Rule) : Decidable r.OneLine := inferInstanceAs (Decidable (_ ∧ _))

instance (bp : BaselinePort) : Decidable bp.OneLine := inferInstanceAs (Decidable (_ ∧ _))

/-- Some word breaks the line. -/
def HasNewline (ws : List Text) : Prop := ∃ w ∈ ws, '\n' ∈ w

theorem hasNewline_append (ws vs : List Text) : HasNewline (ws ++ vs) ↔ HasNewline ws ∨ HasNewline vs := by
  simp [HasNewline, or_and_right, exists_or]

theorem hasNewline_cons (w : Text) (ws : List Text) : HasNewline (w :: ws) ↔ '\n' ∈ w ∨ HasNewline ws := by
  simp [HasNewline]

theorem hasNewline_nil : ¬HasNewline [] := by simp [HasNewline]

theorem protoParts_newline (r : Rule) : HasNewline (protoParts r) ↔ '\n' ∈ r.proto := by
  unfold protoParts
  split
  · simp +decide [hasNewline_cons, hasNewline_nil]
  · rename_i plain
    have none : '\n' ∉ r.proto := by
      intro member
      refine plain ⟨List.ne_nil_of_mem member, ?_⟩
      intro any
      rw [any] at member
      exact absurd member (by decide)
    simp [hasNewline_nil, none]

theorem portParts_newline (r : Rule) : HasNewline (portParts r) ↔ '\n' ∈ r.portSpec := by
  unfold portParts
  split
  · split <;> simp +decide [hasNewline_cons, hasNewline_nil]
  · rename_i empty
    simp_all [hasNewline_nil]

theorem sourceParts_newline (r : Rule) : HasNewline (sourceParts r) ↔ '\n' ∈ r.sourceCIDR := by
  unfold sourceParts
  split
  · simp +decide [hasNewline_cons, hasNewline_nil]
  · rename_i empty
    simp_all [hasNewline_nil]

theorem ruleComment_newline (r : Rule) : '\n' ∈ quoted (ruleComment r) ↔ '\n' ∈ r.comment := by
  unfold ruleComment quoted
  split
  · simp +decide [escapeComment]
  · rename_i empty
    simp_all +decide

/-- Upper-casing an action neither adds nor removes a line break. -/
theorem toUpper_eq_newline {c : Char} : c.toUpper = '\n' ↔ c = '\n' := by
  unfold Char.toUpper
  split
  · rename_i lower
    constructor
    · intro same
      have value := congrArg Char.val same
      simp only at value
      rw [UInt32.le_iff_toNat_le, UInt32.le_iff_toNat_le] at lower
      have toNat := congrArg UInt32.toNat value
      simp [UInt32.toNat_add] at lower toNat
      omega
    · rintro rfl
      simp at lower
  · rfl

theorem newline_mem_joinSpaces (ws : List Text) : '\n' ∈ joinSpaces ws ↔ HasNewline ws :=
  Text.mem_intercalate (by decide) ws

theorem itoa_noNewline (n : Int) : '\n' ∉ Text.itoa n := by
  have digits : ∀ m, '\n' ∉ Text.decimal m := fun m member =>
    absurd (Text.isDigit_of_mem_decimal member) (by decide)
  cases n with
  | ofNat m => exact digits m
  | negSucc m => simp [Text.itoa, digits]

/-- A rendered rule is one line exactly when its fields are. -/
theorem renderRule_oneLine (r : Rule) : '\n' ∉ renderRule r ↔ r.OneLine := by
  have action : '\n' ∈ r.action.map Char.toUpper ↔ '\n' ∈ r.action := by
    simp [List.mem_map, toUpper_eq_newline]
  rw [renderRule, inputLine, newline_mem_joinSpaces, ruleWords, commentParts]
  simp only [hasNewline_append, hasNewline_cons, hasNewline_nil, protoParts_newline,
    portParts_newline, sourceParts_newline, ruleComment_newline, action]
  simp +decide only [Rule.OneLine, or_false, false_or]
  tauto

theorem renderBaseline_oneLine {bp : BaselinePort} (single : bp.OneLine) :
    '\n' ∉ renderBaseline bp := by
  have label : '\n' ∉ quoted (baselineComment bp) := by
    have plain := single.2
    simp +decide [quoted, baselineComment, escapeComment, plain]
  have port := itoa_noNewline bp.port
  have proto := single.1
  rw [renderBaseline, inputLine, newline_mem_joinSpaces, baselineWords, commentParts]
  simp +decide [hasNewline_cons, hasNewline_nil, label, port, proto]

theorem headerLines_oneLine (policy : Policy) : ∀ l ∈ headerLines policy, '\n' ∉ l := by
  have both : ∀ def' ∈ [Word.accept, Word.drop], ∀ l ∈
      ['*' :: Word.filter, joinSpaces [':' :: Word.input, def', counters],
        joinSpaces [':' :: Word.forward, Word.accept, counters],
        joinSpaces [':' :: Word.output, Word.accept, counters],
        inputLine loSpec, inputLine stateSpec], '\n' ∉ l := by decide
  exact both _ (by unfold defaultPolicy; split <;> decide)

section
variable {policy : Policy} {sorted : List BaselinePort} {rules : List Rule}

theorem renderedLines_oneLine (ports : ∀ bp ∈ sorted, bp.OneLine) (single : ∀ r ∈ rules, r.OneLine) :
    ∀ l ∈ renderedLines policy sorted rules, '\n' ∉ l := by
  intro l member
  simp only [renderedLines, List.mem_append, List.mem_map, List.mem_singleton] at member
  rcases member with ((header | ⟨bp, inside, rfl⟩) | ⟨r, inside, rfl⟩) | rfl
  · exact headerLines_oneLine policy l header
  · exact renderBaseline_oneLine (ports bp inside)
  · exact (renderRule_oneLine r).mpr (single r inside)
  · decide

/-- The words of every line of the chain, in order. -/
def chainWords (sorted : List BaselinePort) (rules : List Rule) : List (List Text) :=
  [loSpec, stateSpec] ++ sorted.map baselineWords ++ rules.map ruleWords

/-- The argument list the restore program makes of a line's words. -/
def lineArgs (words : List Text) : List Text := args (joinSpaces words)

def inputPolicy (policy : Policy) : Netfilter.Policy :=
  if foldsToAccept policy.defaultIncoming then .accept else .drop

/-- The table a rendered text stands for, once its rules are read. -/
def renderedTable (policy : Policy) (chain : List Netfilter.Rule) : Table where
  builtin := fun hook => if hook = .input then ⟨inputPolicy policy, chain⟩ else ⟨.accept, []⟩
  user := fun _ => none

theorem renderedLines_eq :
    renderedLines policy sorted rules =
      ['*' :: Word.filter, joinSpaces [':' :: Word.input, defaultPolicy policy, counters],
        joinSpaces [':' :: Word.forward, Word.accept, counters],
        joinSpaces [':' :: Word.output, Word.accept, counters]] ++
      (chainWords sorted rules).map inputLine ++ [Word.commit] := by
  simp only [renderedLines, headerLines, chainWords, List.map_append, List.map_map, List.map_cons,
    List.append_assoc, List.cons_append, List.nil_append]
  rfl

theorem lines_renderSorted (ports : ∀ bp ∈ sorted, bp.OneLine) (single : ∀ r ∈ rules, r.OneLine)
    (n : Nat) :
    Text.lines (renderSorted policy sorted rules ++ List.replicate n '\n') =
      renderedLines policy sorted rules ++ List.replicate (n + 1) [] := by
  have blank : ∀ n, Text.lines (List.replicate n '\n') = List.replicate (n + 1) [] := by
    intro n
    induction n with
    | zero => rfl
    | succ n ih => exact (Text.lines_append_newline (l := []) (by simp) _).trans (by rw [ih]; rfl)
  rw [renderSorted, Text.lines_unlines_append (renderedLines_oneLine ports single), blank]

variable {read : List Text → Option Netfilter.Rule}

theorem args_inputLine {words : List Text} (some' : words ≠ []) :
    args (inputLine words) = Word.dashA :: Word.input :: lineArgs words := by
  rw [inputLine, List.cons_append, List.cons_append, List.nil_append, joinSpaces_cons (by simp),
    joinSpaces_cons some', args_word (by unfold Plain; decide) (by decide),
    args_word (by unfold Plain; decide) (by decide)]
  rfl

theorem readLine_inputLine {words : List Text} (some' : words ≠ []) (done : Dump) (t : Table) :
    readLine read ⟨done, some (none, t)⟩ (inputLine words) = (read (lineArgs words)).map fun r =>
      ⟨done, some (none, t.append .input [r])⟩ := by
  have shape : ∃ rest, inputLine words = '-' :: rest := ⟨_, by
    rw [inputLine, List.cons_append, joinSpaces_cons (by simp)]; rfl⟩
  obtain ⟨rest, shape⟩ := shape
  have parts := args_inputLine some'
  have body : '-' :: rest ≠ Word.commit := fun same => absurd (List.cons.inj same).1 (by decide)
  have hook : readHook Word.input = some .input := by decide
  rw [shape] at parts ⊢
  simp only [readLine, parts, appendRule, hook, if_neg body, Option.bind_some, if_true]
  cases read (lineArgs words) <;> rfl

/-- Reading a block of such lines reads each of them, in order. -/
theorem readLines_inputLines {chain : List (List Text)} (some' : ∀ words ∈ chain, words ≠ [])
    (done : Dump) (t : Table) :
    readLines read ⟨done, some (none, t)⟩ (chain.map inputLine) =
      ((chain.map lineArgs).mapM read).map fun rs =>
        ⟨done, some (none, t.append .input rs)⟩ := by
  induction chain generalizing t with
  | nil => simp [readLines]
  | cons words chain ih =>
    rw [List.map_cons, readLines_cons, readLine_inputLine (some' words (List.mem_cons_self ..)),
      List.map_cons, List.mapM_cons]
    cases read (lineArgs words) with
    | none => rfl
    | some r =>
      simp only [Option.map_some, Option.bind_some, Option.bind_eq_bind, Option.pure_def]
      rw [ih (fun w member => some' w (List.mem_cons_of_mem _ member))]
      cases (chain.map lineArgs).mapM read with
      | none => rfl
      | some rs => simp [Table.append_append]

theorem declared_eq (p : Netfilter.Policy) (chain : List Netfilter.Rule) :
    (((Table.empty.modify .input fun c => { c with policy := p }).modify .forward
      fun c => { c with policy := .accept }).modify .output fun c => { c with policy := .accept }).append
        .input chain =
      ⟨fun hook => if hook = .input then ⟨p, chain⟩ else ⟨.accept, []⟩, fun _ => none⟩ := by
  simp only [Table.append, Table.modify, Table.empty, Table.mk.injEq, and_true]
  funext hook
  cases hook <;> rfl

/-- The four lines above the chain open the table with its policies. -/
theorem readLines_opening :
    readLines read {} ['*' :: Word.filter, joinSpaces [':' :: Word.input, defaultPolicy policy, counters],
        joinSpaces [':' :: Word.forward, Word.accept, counters],
        joinSpaces [':' :: Word.output, Word.accept, counters]] =
      some ⟨⟨none, fun _ => none⟩, some (none,
        ((Table.empty.modify .input fun c => { c with policy := inputPolicy policy }).modify .forward
          fun c => { c with policy := .accept }).modify .output fun c => { c with policy := .accept })⟩ := by
  unfold defaultPolicy inputPolicy
  split <;> rfl

/-- What the restore program makes of a rendered text: the rules of its lines
in order, in a filter table that holds nothing else. -/
theorem readRestore_renderSorted (read : List Text → Option Netfilter.Rule) (policy : Policy)
    (ports : ∀ bp ∈ sorted, bp.OneLine) (single : ∀ r ∈ rules, r.OneLine) (n : Nat) :
    readRestore read (renderSorted policy sorted rules ++ List.replicate n '\n') =
      (((chainWords sorted rules).map lineArgs).mapM read).map fun chain =>
        ⟨some (renderedTable policy chain), fun _ => none⟩ := by
  have words : ∀ ws ∈ chainWords sorted rules, ws ≠ [] := by
    intro ws member
    simp only [chainWords, List.mem_append, List.mem_cons, List.not_mem_nil, or_false,
      List.mem_map] at member
    rcases member with ((rfl | rfl) | ⟨bp, -, rfl⟩) | ⟨r, -, rfl⟩ <;>
      simp [loSpec, stateSpec, baselineWords, ruleWords]
  have blank : ∀ (n : Nat) (s : Progress), readLines read s (List.replicate n []) = some s := by
    intro n s
    induction n with
    | zero => rfl
    | succ n ih => exact ih
  rw [readRestore, lines_renderSorted ports single, renderedLines_eq, readLines_append,
    readLines_append, readLines_append, readLines_opening, Option.bind_some, readLines_inputLines words]
  cases ((chainWords sorted rules).map lineArgs).mapM read with
  | none => rfl
  | some chain =>
    simp only [Option.map_some, Option.bind_some, declared_eq]
    have closed : ∀ t : Table, readLines read ⟨⟨none, fun _ => none⟩, some (none, t)⟩ [Word.commit] =
        some ⟨⟨some t, fun _ => none⟩, none⟩ := fun t => rfl
    simp only [closed, Option.bind_some, blank]
    rfl

end

end Protean.Firewall
