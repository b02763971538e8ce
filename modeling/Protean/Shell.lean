import Protean.Text

namespace Shell

/-- The fields of an unquoted expansion when `IFS` is one non-blank character:
a last empty field is dropped, the others stay. -/
def fields (sep : Char) (t : Text) : List Text :=
  let parts := t.splitOn sep
  if parts.getLast? = some [] then parts.dropLast else parts

/-- `${t%%c*}`. -/
def beforeFirst (c : Char) (t : Text) : Text := t.takeWhile (· ≠ c)

/-- `${t#*c}`: unchanged when the character is absent. -/
def afterFirst (c : Char) (t : Text) : Text :=
  if c ∈ t then (t.dropWhile (· ≠ c)).drop 1 else t

/-- `${t%c*}`: unchanged when the character is absent. -/
def beforeLast (c : Char) (t : Text) : Text :=
  if c ∈ t then ((t.reverse.dropWhile (· ≠ c)).drop 1).reverse else t

/-- Characters that mean something to the shell outside quotes. -/
def metaChars : Text :=
  [' ', '\t', '\n', '|', '&', ';', '(', ')', '<', '>', '$', '\x60', '\\', '"', '\'', '*', '?', '[', '#', '~',
    '\x7b', '\x7d']

def literal (c : Char) : Bool := c ∉ metaChars

/-- Characters that mean something to it even inside double quotes. -/
def special (c : Char) : Bool := c ∈ ['\\', '$', '\x60', '\n']

/-- The words of a command line the shell does no more with than split it:
literal characters and double-quoted strings without expansions. `word` is the
word under way. -/
def plainWords : Bool → Option Text → Text → Option (List Text)
  | false, none, [] => some []
  | false, some word, [] => some [word]
  | true, _, [] => none
  | true, word, c :: rest =>
    if c = '"' then plainWords false (some (word.getD [])) rest
    else if special c then none
    else plainWords true (some (word.getD [] ++ [c])) rest
  | false, word, c :: rest =>
    if c = ' ' then (plainWords false none rest).map (word.toList ++ ·)
    else if c = '"' then plainWords true (some (word.getD [])) rest
    else if literal c then plainWords false (some (word.getD [] ++ [c])) rest
    else none

/-- Characters that stand for themselves wherever they occur. -/
def safe (c : Char) : Bool := c.isAlphanum || c ∈ ['/', '.', '_', '-', ':', ',']

def words (line : Text) : List Text := (line.splitOn ' ').filter (· ≠ [])

/-- The delimiter of a here-document operator with a quoted delimiter, whose
body is taken as it stands. -/
def heredoc : Text → Option Text
  | '<' :: '<' :: '\'' :: rest =>
    if rest.getLast? = some '\'' ∧ '\'' ∉ rest.dropLast then some rest.dropLast else none
  | _ => none

/-- One simple command with its standard input, and the lines left for the
shell to run after it. -/
structure Command where
  argv : List Text
  stdin : Text
  rest : List Text
  deriving DecidableEq, Repr

/-- A command line of safe words that ends in a here-document. The body ends
at the first line that is the delimiter. -/
def parse (input : Text) : Option Command :=
  match Text.lines input with
  | [] => none
  | first :: body =>
    ((words first).getLast?.bind heredoc).bind fun delimiter =>
      if (words first).dropLast.all (·.all safe) then
        some ⟨(words first).dropLast, Text.unlines (body.takeWhile (· ≠ delimiter)),
          (body.dropWhile (· ≠ delimiter)).drop 1⟩
      else none

theorem fields_intercalate {sep : Char} {parts : List Text} (single : ∀ t ∈ parts, sep ∉ t)
    (nonempty : ∀ t ∈ parts, t ≠ []) (some' : parts ≠ []) :
    fields sep ([sep].intercalate parts) = parts := by
  have split : ([sep].intercalate parts).splitOn sep = parts :=
    List.splitOn_intercalate sep single some'
  have last : parts.getLast? ≠ some [] := fun empty =>
    nonempty [] (List.mem_of_getLast? empty) rfl
  rw [fields, split, if_neg last]

theorem beforeFirst_append {c : Char} {t : Text} (absent : c ∉ t) (rest : Text) :
    beforeFirst c (t ++ c :: rest) = t := by
  induction t with
  | nil => simp [beforeFirst]
  | cons d t ih =>
    have head : d ≠ c := fun same => absent (same ▸ List.mem_cons_self ..)
    have tail := ih (fun member => absent (List.mem_cons_of_mem _ member))
    simpa [beforeFirst, head] using tail

theorem afterFirst_append {c : Char} {t : Text} (absent : c ∉ t) (rest : Text) :
    afterFirst c (t ++ c :: rest) = rest := by
  rw [afterFirst, if_pos (by simp)]
  induction t with
  | nil => simp
  | cons d t ih =>
    have head : d ≠ c := fun same => absent (same ▸ List.mem_cons_self ..)
    have tail := ih (fun member => absent (List.mem_cons_of_mem _ member))
    simpa [head] using tail

theorem beforeLast_append {c : Char} {rest : Text} (absent : c ∉ rest) (t : Text) :
    beforeLast c (t ++ c :: rest) = t := by
  have last : (t ++ c :: rest).reverse = rest.reverse ++ c :: t.reverse := by simp
  have others : ∀ d ∈ rest.reverse, decide (d ≠ c) = true := by
    intro d member
    exact decide_eq_true fun same => absent (same ▸ List.mem_reverse.mp member)
  rw [beforeLast, if_pos (by simp), last, List.dropWhile_append_of_pos others]
  simp

/-- The here-document operator for a delimiter. -/
def heredocOp (delimiter : Text) : Text := ['<', '<', '\''] ++ delimiter ++ ['\'']

theorem heredoc_heredocOp {delimiter : Text} (noQuote : '\'' ∉ delimiter) :
    heredoc (heredocOp delimiter) = some delimiter := by
  simp [heredoc, heredocOp, noQuote]

theorem words_intercalate {ws : List Text} (single : ∀ w ∈ ws, ' ' ∉ w) (some' : ws ≠ []) :
    words ([' '].intercalate ws) = ws.filter (· ≠ []) := by
  rw [words, List.splitOn_intercalate ' ' single some']

theorem not_safe_newline {w : Text} (plain : ∀ c ∈ w, safe c) : '\n' ∉ w ∧ ' ' ∉ w :=
  ⟨fun member => absurd (plain _ member) (by decide), fun member => absurd (plain _ member) (by decide)⟩

/-- A body that never is the delimiter reaches the command unchanged, and the
shell has nothing left to run. -/
theorem parse_heredoc {ws body : List Text} {delimiter : Text} (plain : ∀ w ∈ ws, ∀ c ∈ w, safe c)
    (plainEnd : ∀ c ∈ delimiter, safe c) (single : ∀ l ∈ body, '\n' ∉ l) (open' : delimiter ∉ body) :
    parse ([' '].intercalate (ws ++ [heredocOp delimiter]) ++ '\n' :: (Text.unlines body ++ delimiter)) =
      some ⟨ws.filter (· ≠ []), Text.unlines body, []⟩ := by
  have noQuote : '\'' ∉ delimiter := fun member => absurd (plainEnd _ member) (by decide)
  have op : '\n' ∉ heredocOp delimiter ∧ ' ' ∉ heredocOp delimiter := by
    have plain := not_safe_newline plainEnd
    simp [heredocOp, plain.1, plain.2]
  have noBlank : ∀ w ∈ ws ++ [heredocOp delimiter], ' ' ∉ w := by
    intro w member
    rcases List.mem_append.mp member with inside | last
    · exact (not_safe_newline (plain w inside)).2
    · rw [List.mem_singleton.mp last]; exact op.2
  have firstLine : '\n' ∉ [' '].intercalate (ws ++ [heredocOp delimiter]) := by
    rw [Text.mem_intercalate (by decide)]
    rintro ⟨w, member, broken⟩
    rcases List.mem_append.mp member with inside | last
    · exact (not_safe_newline (plain w inside)).1 broken
    · rw [List.mem_singleton.mp last] at broken; exact op.1 broken
  have lines : Text.lines ([' '].intercalate (ws ++ [heredocOp delimiter]) ++
      '\n' :: (Text.unlines body ++ delimiter)) =
      [' '].intercalate (ws ++ [heredocOp delimiter]) :: (body ++ [delimiter]) := by
    rw [Text.lines_append_newline firstLine, Text.lines_unlines_append single]
    exact congrArg (fun t => _ :: (body ++ t)) (List.splitOn_eq_singleton (not_safe_newline plainEnd).1)
  have split : words ([' '].intercalate (ws ++ [heredocOp delimiter])) =
      ws.filter (· ≠ []) ++ [heredocOp delimiter] := by
    rw [words_intercalate noBlank (by simp), List.filter_append]
    rfl
  have kept : (ws.filter (· ≠ [])).all (·.all safe) = true := by
    simp only [List.all_eq_true]
    exact fun w member => plain w (List.mem_of_mem_filter member)
  have upto : (body ++ [delimiter]).takeWhile (· ≠ delimiter) = body ∧
      (body ++ [delimiter]).dropWhile (· ≠ delimiter) = [delimiter] := by
    have all : ∀ l ∈ body, decide (l ≠ delimiter) = true := fun l member =>
      decide_eq_true fun same => open' (same ▸ member)
    constructor
    · rw [List.takeWhile_append_of_pos all]
      simp
    · rw [List.dropWhile_append_of_pos all]
      simp
  simp only [parse, lines, split, List.getLast?_concat, Option.bind_some, heredoc_heredocOp noQuote,
    List.dropLast_concat, kept, if_true, upto.1, upto.2]
  rfl

/-- A word of literal characters goes on the word under way. -/
theorem plainWords_literal {t : Text} (plain : ∀ c ∈ t, literal c) (word : Text) (rest : Text) :
    plainWords false (some word) (t ++ rest) = plainWords false (some (word ++ t)) rest := by
  induction t generalizing word with
  | nil => simp
  | cons c t ih =>
    rw [List.forall_mem_cons] at plain
    have notBlank : c ≠ ' ' := by
      rintro rfl
      exact absurd plain.1 (by decide)
    have notQuote : c ≠ '"' := by
      rintro rfl
      exact absurd plain.1 (by decide)
    rw [List.cons_append, plainWords, if_neg notBlank, if_neg notQuote, if_pos plain.1, ih plain.2]
    simp

theorem plainWords_quoted {t : Text} (plain : ∀ c ∈ t, c ≠ '"' ∧ special c = false) (word : Text) (rest : Text) :
    plainWords true (some word) (t ++ '"' :: rest) = plainWords false (some (word ++ t)) rest := by
  induction t generalizing word with
  | nil => simp [plainWords]
  | cons c t ih =>
    rw [List.forall_mem_cons] at plain
    rw [List.cons_append, plainWords, if_neg plain.1.1, if_neg (by simp [plain.1.2]), ih plain.2]
    simp

/-- How a word may be written so that the shell reads it back. -/
def Writes (written word : Text) : Prop :=
  written = word ∧ word ≠ [] ∧ (∀ c ∈ word, literal c) ∨
    written = '"' :: word ++ ['"'] ∧ ∀ c ∈ word, c ≠ '"' ∧ special c = false

theorem plainWords_writes {written word : Text} (writes : Writes written word) (rest : Text) :
    plainWords false none (written ++ rest) = plainWords false (some word) rest := by
  rcases writes with ⟨rfl, filled, plain⟩ | ⟨rfl, plain⟩
  · cases written with
    | nil => exact absurd rfl filled
    | cons c t =>
      rw [List.forall_mem_cons] at plain
      have notBlank : c ≠ ' ' := by
        rintro rfl
        exact absurd plain.1 (by decide)
      have notQuote : c ≠ '"' := by
        rintro rfl
        exact absurd plain.1 (by decide)
      rw [List.cons_append, plainWords, if_neg notBlank, if_neg notQuote, if_pos plain.1,
        plainWords_literal plain.2]
      simp
  · rw [List.cons_append, List.cons_append, List.append_assoc, plainWords, if_neg (by decide), if_pos rfl]
    exact plainWords_quoted plain [] rest

/-- A line of such words is read back as those words. -/
theorem plainWords_line {ws : List (Text × Text)} (writes : ∀ w ∈ ws, Writes w.1 w.2) :
    plainWords false none ([' '].intercalate (ws.map Prod.fst)) = some (ws.map Prod.snd) := by
  induction ws with
  | nil => rfl
  | cons w ws ih =>
    rw [List.forall_mem_cons] at writes
    cases ws with
    | nil =>
      have alone : [' '].intercalate ([w].map Prod.fst) = w.1 ++ [] := by simp [List.intercalate]
      rw [alone, plainWords_writes writes.1]
      rfl
    | cons w' ws =>
      have joined : [' '].intercalate ((w :: w' :: ws).map Prod.fst) =
          w.1 ++ ' ' :: [' '].intercalate ((w' :: ws).map Prod.fst) := by simp [List.intercalate]
      rw [joined, plainWords_writes writes.1, plainWords, if_pos rfl, ih writes.2]
      rfl

end Shell
