import Mathlib.Computability.RegularExpressions
import Mathlib.Tactic.IntervalCases
import Protean.Text

/-- The pattern of an anchored extended regular expression. -/
abbrev Regex := RegularExpression Char

namespace Regex

def oneOf : List Char → Regex
  | [] => 0
  | c :: cs => .char c + oneOf cs

def word : Text → Regex
  | [] => 1
  | c :: cs => .char c * word cs

/-- At most `n` times. -/
def upTo (r : Regex) : Nat → Regex
  | 0 => 1
  | n + 1 => 1 + r * upTo r n

def exactly (r : Regex) : Nat → Regex
  | 0 => 1
  | n + 1 => r * exactly r n

/-- `r{lo,hi}`. -/
def between (r : Regex) (lo hi : Nat) : Regex := exactly r lo * upTo r (hi - lo)

def digit : Regex := oneOf ['0', '1', '2', '3', '4', '5', '6', '7', '8', '9']

def accepts (r : Regex) (t : Text) : Bool := r.rmatch t

variable {t : Text} {r : Regex}

theorem accepts_iff : accepts r t = true ↔ t ∈ r.matches' :=
  RegularExpression.rmatch_iff_matches' r t

theorem mem_char {c : Char} : t ∈ (RegularExpression.char c).matches' ↔ t = [c] := Iff.rfl

theorem mem_mul {s : Regex} : t ∈ (r * s).matches' ↔ ∃ a ∈ r.matches', ∃ b ∈ s.matches', a ++ b = t := by
  rw [RegularExpression.matches'_mul, Language.mem_mul]

theorem mem_word {w : Text} : t ∈ (word w).matches' ↔ t = w := by
  induction w generalizing t with
  | nil => exact Iff.rfl
  | cons c cs ih =>
    rw [word, mem_mul]
    constructor
    · rintro ⟨a, first, b, rest, rfl⟩
      rw [mem_char.mp first, ih.mp rest]
      rfl
    · rintro rfl
      exact ⟨[c], rfl, cs, ih.mpr rfl, rfl⟩

theorem mem_oneOf {cs : List Char} : t ∈ (oneOf cs).matches' ↔ ∃ c ∈ cs, t = [c] := by
  induction cs with
  | nil => simp [oneOf]
  | cons c cs ih =>
    rw [oneOf, RegularExpression.matches'_add, Language.mem_add, ih, mem_char]
    simp

variable {n : Nat}

theorem mem_exactly : t ∈ (exactly r n).matches' ↔
      ∃ parts : List Text, parts.length = n ∧ (∀ part ∈ parts, part ∈ r.matches') ∧ parts.flatten = t := by
  induction n generalizing t with
  | zero =>
    rw [exactly]
    constructor
    · intro empty
      exact ⟨[], rfl, by simp, empty.symm⟩
    · rintro ⟨parts, none', -, rfl⟩
      rw [List.length_eq_zero_iff.mp none']
      rfl
  | succ n ih =>
    rw [exactly, mem_mul]
    constructor
    · rintro ⟨a, first, b, rest, rfl⟩
      obtain ⟨parts, length, each, rfl⟩ := ih.mp rest
      exact ⟨a :: parts, by simp [length], by simpa using ⟨first, each⟩, rfl⟩
    · rintro ⟨parts, length, each, rfl⟩
      obtain ⟨a, parts, rfl⟩ := List.exists_cons_of_length_eq_add_one length
      rw [List.forall_mem_cons] at each
      exact ⟨a, each.1, parts.flatten, ih.mpr ⟨parts, by simpa using length, each.2, rfl⟩, rfl⟩

theorem mem_upTo : t ∈ (upTo r n).matches' ↔
      ∃ parts : List Text, parts.length ≤ n ∧ (∀ part ∈ parts, part ∈ r.matches') ∧ parts.flatten = t := by
  induction n generalizing t with
  | zero =>
    rw [upTo]
    constructor
    · intro empty
      exact ⟨[], Nat.le_refl 0, by simp, empty.symm⟩
    · rintro ⟨parts, none', -, rfl⟩
      rw [List.length_eq_zero_iff.mp (Nat.le_zero.mp none')]
      rfl
  | succ n ih =>
    rw [upTo, RegularExpression.matches'_add, Language.mem_add, mem_mul]
    constructor
    · rintro (empty | ⟨a, first, b, rest, rfl⟩)
      · exact ⟨[], Nat.zero_le _, by simp, empty.symm⟩
      · obtain ⟨parts, length, each, rfl⟩ := ih.mp rest
        exact ⟨a :: parts, by simpa using length, by simpa using ⟨first, each⟩, rfl⟩
    · rintro ⟨parts, length, each, rfl⟩
      cases parts with
      | nil => exact .inl rfl
      | cons a parts =>
        rw [List.forall_mem_cons] at each
        exact .inr ⟨a, each.1, parts.flatten, ih.mpr ⟨parts, by simpa using length, each.2, rfl⟩, rfl⟩

theorem mem_between {lo hi : Nat} (order : lo ≤ hi) :
    t ∈ (between r lo hi).matches' ↔ ∃ parts : List Text, lo ≤ parts.length ∧ parts.length ≤ hi ∧
      (∀ part ∈ parts, part ∈ r.matches') ∧ parts.flatten = t := by
  rw [between, mem_mul]
  constructor
  · rintro ⟨a, first, b, rest, rfl⟩
    obtain ⟨as, lengthA, eachA, rfl⟩ := mem_exactly.mp first
    obtain ⟨bs, lengthB, eachB, rfl⟩ := mem_upTo.mp rest
    refine ⟨as ++ bs, ?_, ?_, List.forall_mem_append.mpr ⟨eachA, eachB⟩, by simp⟩
    · rw [List.length_append]; omega
    · rw [List.length_append]; omega
  · rintro ⟨parts, lower, upper, each, rfl⟩
    have split : (parts.take lo).flatten ++ (parts.drop lo).flatten = parts.flatten := by
      rw [← List.flatten_append, List.take_append_drop]
    refine ⟨_, mem_exactly.mpr ⟨parts.take lo, ?_, ?_, rfl⟩, _, mem_upTo.mpr ⟨parts.drop lo, ?_, ?_, rfl⟩, split⟩
    · rw [List.length_take]; omega
    · exact fun part member => each part (List.mem_of_mem_take member)
    · rw [List.length_drop]; omega
    · exact fun part member => each part (List.mem_of_mem_drop member)

theorem mem_digit : t ∈ digit.matches' ↔ ∃ c : Char, c.isDigit ∧ t = [c] := by
  rw [digit, mem_oneOf]
  constructor
  · rintro ⟨c, member, rfl⟩
    have digits : ∀ c ∈ ['0', '1', '2', '3', '4', '5', '6', '7', '8', '9'], c.isDigit := by decide
    exact ⟨c, digits c member, rfl⟩
  · rintro ⟨c, isDigit, rfl⟩
    have bounds : 48 ≤ c.toNat ∧ c.toNat ≤ 57 := by
      simpa [Char.isDigit, UInt32.le_iff_toNat_le] using isDigit
    have code : ∀ n, 48 ≤ n → n ≤ 57 →
        Char.ofNat n ∈ ['0', '1', '2', '3', '4', '5', '6', '7', '8', '9'] := by
      intro n lower upper
      interval_cases n <;> decide
    have member := code c.toNat bounds.1 bounds.2
    rw [Char.ofNat_toNat] at member
    exact ⟨c, member, rfl⟩

/-- Pieces that all come from entries come from a list of entries. -/
theorem exists_entries {α : Type} {P : α → Prop} {f : α → Text} {parts : List Text}
    (each : ∀ part ∈ parts, ∃ a, P a ∧ part = f a) :
    ∃ entries : List α, (∀ a ∈ entries, P a) ∧ entries.map f = parts := by
  induction parts with
  | nil => exact ⟨[], by simp, rfl⟩
  | cons part parts ih =>
    rw [List.forall_mem_cons] at each
    obtain ⟨a, holds, rfl⟩ := each.1
    obtain ⟨entries, hold, rfl⟩ := ih each.2
    exact ⟨a :: entries, List.forall_mem_cons.mpr ⟨holds, hold⟩, rfl⟩

/-- Between `lo` and `hi` digits. -/
theorem mem_digits {lo hi : Nat} (order : lo ≤ hi) :
    t ∈ (between digit lo hi).matches' ↔ lo ≤ t.length ∧ t.length ≤ hi ∧ ∀ c ∈ t, c.isDigit := by
  have flatten : ∀ t : Text, (t.map fun c => [c]).flatten = t := by
    intro t
    rw [← List.flatMap_def, List.flatMap_singleton']
  rw [mem_between order]
  constructor
  · rintro ⟨parts, lower, upper, each, rfl⟩
    obtain ⟨t, digits, rfl⟩ := exists_entries fun part member => mem_digit.mp (each part member)
    rw [List.length_map] at lower upper
    rw [flatten]
    exact ⟨lower, upper, digits⟩
  · rintro ⟨lower, upper, each⟩
    refine ⟨t.map fun c => [c], by simpa using lower, by simpa using upper, ?_, flatten t⟩
    intro part member
    obtain ⟨c, inside, rfl⟩ := List.mem_map.mp member
    exact mem_digit.mpr ⟨c, each c inside, rfl⟩

/-- A list of one to `n + 1` entries with a separator between them. -/
theorem mem_separated {entry : Regex} {sep : Char} :
    t ∈ (entry * upTo (.char sep * entry) n).matches' ↔ ∃ parts : List Text, parts ≠ [] ∧
      parts.length ≤ n + 1 ∧ (∀ part ∈ parts, part ∈ entry.matches') ∧ [sep].intercalate parts = t := by
  have flatten : ∀ (rest : List Text) (first : Text),
      first ++ (rest.map (sep :: ·)).flatten = [sep].intercalate (first :: rest) := by
    intro rest
    induction rest with
    | nil => simp [List.intercalate]
    | cons second rest ih =>
      intro first
      rw [List.map_cons, List.flatten_cons, List.cons_append, ih second]
      simp [List.intercalate]
  rw [mem_mul]
  constructor
  · rintro ⟨first, head, b, tail, rfl⟩
    obtain ⟨parts, length, each, rfl⟩ := mem_upTo.mp tail
    have strip : ∀ part ∈ parts, ∃ e, e ∈ entry.matches' ∧ part = sep :: e := by
      intro part member
      obtain ⟨a, separator, e, inside, rfl⟩ := mem_mul.mp (each part member)
      rw [mem_char.mp separator]
      exact ⟨e, inside, rfl⟩
    obtain ⟨rest, entries, rfl⟩ := exists_entries strip
    refine ⟨first :: rest, by simp, by simpa using length, ?_, (flatten rest first).symm⟩
    exact List.forall_mem_cons.mpr ⟨head, entries⟩
  · rintro ⟨parts, some', length, each, rfl⟩
    cases parts with
    | nil => exact absurd rfl some'
    | cons first rest =>
      rw [List.forall_mem_cons] at each
      refine ⟨first, each.1, _, mem_upTo.mpr ⟨rest.map (sep :: ·), by simpa using length, ?_, rfl⟩, flatten rest first⟩
      intro part member
      obtain ⟨e, inside, rfl⟩ := List.mem_map.mp member
      exact mem_mul.mpr ⟨[sep], rfl, e, each.2 e inside, rfl⟩

/-- The characters a pattern mentions. -/
def alphabet : Regex → List Char
  | .zero => []
  | .epsilon => []
  | .char c => [c]
  | .plus r s => alphabet r ++ alphabet s
  | .comp r s => alphabet r ++ alphabet s
  | .star r => alphabet r

theorem mem_alphabet (accepted : t ∈ r.matches') : ∀ c ∈ t, c ∈ alphabet r := by
  induction r generalizing t with
  | zero => cases accepted
  | epsilon =>
    rw [show t = [] from accepted]
    simp
  | char d =>
    rw [show t = [d] from accepted]
    simp [alphabet]
  | plus r s ihr ihs =>
    intro c member
    rcases accepted with left | right
    · exact List.mem_append_left _ (ihr left c member)
    · exact List.mem_append_right _ (ihs right c member)
  | comp r s ihr ihs =>
    obtain ⟨a, left, b, right, rfl⟩ := mem_mul.mp accepted
    intro c member
    rcases List.mem_append.mp member with member | member
    · exact List.mem_append_left _ (ihr left c member)
    · exact List.mem_append_right _ (ihs right c member)
  | star r ih =>
    obtain ⟨parts, rfl, each⟩ := Language.mem_kstar.mp accepted
    intro c member
    obtain ⟨part, inside, member⟩ := List.mem_flatten.mp member
    exact ih (each part inside) c member

end Regex
