import Mathlib.Data.Char
import Mathlib.Data.List.Lex
import Mathlib.Data.List.Sort
import Mathlib.Data.Prod.Lex
import Protean.Netfilter.Restore

namespace Protean.Firewall

/-- A port that must never be locked out, computed afresh at every apply. -/
structure BaselinePort where
  proto : Text
  port : Int
  label : Text
  deriving DecidableEq, Repr

/-- One of the admin's own rules, with its fields as they were stored. -/
structure Rule where
  action : Text
  proto : Text
  portSpec : Text
  sourceCIDR : Text
  comment : Text
  deriving DecidableEq, Repr

structure Policy where
  defaultIncoming : Text
  deriving DecidableEq, Repr

/- The words of the panel's own fields. -/
namespace Field

def any : Text := ['a', 'n', 'y']
def accept : Text := ['a', 'c', 'c', 'e', 'p', 't']
def drop : Text := ['d', 'r', 'o', 'p']
def reject : Text := ['r', 'e', 'j', 'e', 'c', 't']

end Field

def commentPrefix : Text := ['p', 'r', 'o', 't', 'e', 'a', 'n', '-', 'f', 'w']

/-- Quotes would end the quoted comment early; nothing else is removed. -/
def escapeComment (s : Text) : Text := s.filter (· ≠ '"')

def quoted (s : Text) : Text := '"' :: s ++ ['"']

def joinSpaces (parts : List Text) : Text := [' '].intercalate parts

/-- `strings.EqualFold(s, "accept")`: no other character folds to these letters. -/
def foldsToAccept (s : Text) : Bool := s.map Char.toLower == Field.accept

def protoParts (r : Rule) : List Text :=
  if r.proto ≠ [] ∧ r.proto ≠ Field.any then [Word.dashP, r.proto] else []

def portParts (r : Rule) : List Text :=
  if r.portSpec ≠ [] then
    if ',' ∈ r.portSpec then [Word.dashM, Word.multiport, Word.dashDports, r.portSpec]
    else [Word.dashDport, r.portSpec]
  else []

def sourceParts (r : Rule) : List Text :=
  if r.sourceCIDR ≠ [] then [Word.dashS, r.sourceCIDR] else []

def ruleComment (r : Rule) : Text :=
  if r.comment ≠ [] then commentPrefix ++ [':', ' '] ++ escapeComment r.comment else commentPrefix

/-- A line of the `INPUT` chain. -/
def inputLine (words : List Text) : Text := joinSpaces ([Word.dashA, Word.input] ++ words)

def commentParts (comment : Text) : List Text :=
  [Word.dashM, Word.comment, Word.dashComment, quoted comment]

def ruleWords (r : Rule) : List Text :=
  protoParts r ++ portParts r ++ sourceParts r ++ [Word.dashJ, r.action.map Char.toUpper] ++
    commentParts (ruleComment r)

def renderRule (r : Rule) : Text := inputLine (ruleWords r)

def baselineComment (bp : BaselinePort) : Text :=
  commentPrefix ++ ['-', 'b', 'a', 's', 'e', 'l', 'i', 'n', 'e', ':', ' '] ++ escapeComment bp.label

def baselineWords (bp : BaselinePort) : List Text :=
  [Word.dashP, bp.proto, Word.dashDport, Text.itoa bp.port, Word.dashJ, Word.accept] ++
    commentParts (baselineComment bp)

def renderBaseline (bp : BaselinePort) : Text := inputLine (baselineWords bp)

/-- The order of the baseline rows: protocol first, then port. -/
def baselineLess (a b : BaselinePort) : Bool :=
  if a.proto ≠ b.proto then a.proto < b.proto else a.port < b.port

/-- `sort.Slice` promises a sorted permutation and nothing about rows that
compare equal. -/
def IsSorting (baseline sorted : List BaselinePort) : Prop :=
  sorted.Perm baseline ∧ sorted.Pairwise fun a b => baselineLess b a = false

def counters : Text := ['[', '0', ':', '0', ']']

def lo : Text := ['l', 'o']

/-- `-i lo` and `-m state --state ESTABLISHED,RELATED`, each with its accept. -/
def loSpec : List Text := [Word.dashI, lo, Word.dashJ, Word.accept]

def stateSpec : List Text :=
  [Word.dashM, Word.state, Word.dashState, Word.established ++ ',' :: Word.related,
    Word.dashJ, Word.accept]

def defaultPolicy (policy : Policy) : Text :=
  if foldsToAccept policy.defaultIncoming then Word.accept else Word.drop

def headerLines (policy : Policy) : List Text :=
  ['*' :: Word.filter,
    joinSpaces [':' :: Word.input, defaultPolicy policy, counters],
    joinSpaces [':' :: Word.forward, Word.accept, counters],
    joinSpaces [':' :: Word.output, Word.accept, counters],
    inputLine loSpec,
    inputLine stateSpec]

def renderedLines (policy : Policy) (sorted : List BaselinePort) (rules : List Rule) : List Text :=
  headerLines policy ++ sorted.map renderBaseline ++ rules.map renderRule ++ [Word.commit]

/-- `Render` once its baseline rows are sorted. -/
def renderSorted (policy : Policy) (sorted : List BaselinePort) (rules : List Rule) : Text :=
  Text.unlines (renderedLines policy sorted rules)

def render (policy : Policy) (baseline : List BaselinePort) (rules : List Rule) : Text :=
  renderSorted policy (baseline.insertionSort fun a b => baselineLess b a = false) rules

theorem baselineLess_iff (a b : BaselinePort) :
    baselineLess a b = true ↔ toLex (a.proto, a.port) < toLex (b.proto, b.port) := by
  rw [Prod.Lex.toLex_lt_toLex]
  unfold baselineLess
  split
  · rename_i differ
    simp [differ]
  · rename_i same
    rw [ne_eq, not_not] at same
    simp [same]

/-- The sort of `Render` is one of those `sort.Slice` may do. -/
theorem isSorting_insertionSort (baseline : List BaselinePort) :
    IsSorting baseline (baseline.insertionSort fun a b => baselineLess b a = false) := by
  have le : ∀ a b, baselineLess b a = false ↔ toLex (a.proto, a.port) ≤ toLex (b.proto, b.port) := by
    intro a b
    rw [← not_lt, ← baselineLess_iff, Bool.not_eq_true]
  have : Std.Total fun a b => baselineLess b a = false :=
    ⟨fun a b => by rw [le, le]; exact le_total _ _⟩
  have : IsTrans BaselinePort fun a b => baselineLess b a = false :=
    ⟨fun a b c => by rw [le, le, le]; exact le_trans⟩
  exact ⟨List.perm_insertionSort .., List.pairwise_insertionSort ..⟩

theorem joinSpaces_cons {w : Text} {ws : List Text} (more : ws ≠ []) :
    joinSpaces (w :: ws) = w ++ ' ' :: joinSpaces ws := by
  simp [joinSpaces, List.intercalate_cons_of_ne_nil more]

theorem escapeComment_noQuote (s : Text) : '"' ∉ escapeComment s := by
  simp [escapeComment]

theorem ruleComment_noQuote (r : Rule) : '"' ∉ ruleComment r := by
  have fixed : '"' ∉ commentPrefix := by decide
  have colon : '"' ∉ [':', ' '] := by decide
  unfold ruleComment
  split
  · simp only [List.mem_append, not_or]
    exact ⟨⟨fixed, colon⟩, escapeComment_noQuote r.comment⟩
  · exact fixed

theorem baselineComment_noQuote (bp : BaselinePort) : '"' ∉ baselineComment bp := by
  unfold baselineComment
  simp only [List.mem_append, not_or]
  exact ⟨⟨by decide, by decide⟩, escapeComment_noQuote bp.label⟩

end Protean.Firewall
