import Mathlib.Data.List.TakeWhile
import Protean.Posix.Parser

namespace Protean.SSHExec
open Posix

/-- One character becomes a quote that closes, a quoted quote and one that opens again. -/
def escapeQuote (c : Char) : Text := if c = '\'' then "'\\''".toList else [c]

def shellQuote (s : Text) : Text := '\'' :: (s.flatMap escapeQuote ++ ['\''])

def writeFileDelimiter : Text := "PROTEAN_EOF".toList

/-- `strings.TrimRight(line, "\r")`. -/
def trimRightCR (line : Text) : Text := (line.reverse.dropWhile (· = '\r')).reverse

/-- What `run` starts on the host: the command, in the C locale. -/
def sessionCommand (cmd : Text) : Text := "LC_ALL=C LANG=C ".toList ++ cmd

def writeFileCommand (path content : Text) : Text :=
  "cat > ".toList ++ (shellQuote path ++ (" <<'PROTEAN_EOF'\n".toList ++ (content ++ '\n' :: writeFileDelimiter)))

/-- `WriteFile` up to the host: an error, or what is started there. -/
def writeFile (path content : Text) : Except Text Text :=
  if (Text.lines content).any fun line => trimRightCR line = writeFileDelimiter then
    .error "refusing to write content containing the heredoc delimiter \"PROTEAN_EOF\"".toList
  else .ok (sessionCommand (writeFileCommand path content))

section
variable {q : Lexer} {s : Text}

theorem read_escapeQuote {t : Text} {c : Char} (noNul : c ≠ '\x00') :
    (q.inWord (.literal t) .single).read (escapeQuote c) = some (q.inWord (.literal (t ++ [c])) .single) := by
  by_cases quote : c = '\''
  · subst quote
    have escaped : escapeQuote '\'' = ['\'', '\\', '\'', '\''] := rfl
    rw [escaped, Lexer.read_cons Lexer.step_close, Lexer.read_cons Lexer.step_backslash,
      Lexer.read_cons (Lexer.step_escape (by decide) (by decide)), Lexer.literal_add,
      Lexer.read_cons (Lexer.step_reopen rfl)]
    rfl
  · rw [escapeQuote, if_neg quote, Lexer.read_cons (Lexer.step_single quote noNul), Lexer.literal_add]
    rfl

theorem read_escaped (noNul : '\x00' ∉ s) (t : Text) :
    (q.inWord (.literal t) .single).read (s.flatMap escapeQuote) = some (q.inWord (.literal (t ++ s)) .single) := by
  induction s generalizing t with
  | nil => rw [List.append_nil]; rfl
  | cons c s ih =>
    rw [List.mem_cons, not_or] at noNul
    rw [List.flatMap_cons, Lexer.read_append, read_escapeQuote (Ne.symm noNul.1), Option.bind_some, ih noNul.2,
      List.append_assoc, List.singleton_append]

/-- Whatever the text holds, quoted it is one word. -/
theorem read_shellQuote (noNul : '\x00' ∉ s) (between : q.Between) :
    q.read (shellQuote s) = some (q.inWord (.literal s) .normal) := by
  rw [shellQuote, Lexer.read_cons (Lexer.step_open between), Lexer.read_append, read_escaped noNul [],
    Option.bind_some, List.nil_append, Lexer.read_cons Lexer.step_close]
  rfl

theorem lexFrom_shellQuote (noNul : '\x00' ∉ s) (between : q.Between) (argument : q.awaiting = none) {post : Text}
    (delimited : Lexer.Delimited post) :
    q.lexFrom (shellQuote s ++ post) =
      Lexer.lexFrom { q with tokens := q.tokens ++ [Token.word (.literal s)] } post := by
  rw [Lexer.lexFrom_append (read_shellQuote noNul between), Lexer.lexFrom_word between rfl delimited, Lexer.emit, argument]
  obtain ⟨tokens, bodies, pending, awaiting, word, mode⟩ := q
  obtain ⟨rfl, rfl⟩ := between
  rfl

theorem ne_delimiter {content : Text} (accepted : ∀ line ∈ Text.lines content, trimRightCR line ≠ writeFileDelimiter) :
    writeFileDelimiter ∉ Text.lines content :=
  fun member => accepted _ member (by decide)

/-- The state after the operator of the here-document and its line. -/
def atBody (path : Text) : Lexer where
  tokens :=
    [.word ⟨"LC_ALL=C".toList.map (·, false), false⟩, .word ⟨"LANG=C".toList.map (·, false), false⟩,
      .word ⟨"cat".toList.map (·, false), false⟩, .op .great, .word (.literal path), .op .dless,
      .word (.literal writeFileDelimiter), .newline]
  pending := [⟨writeFileDelimiter, false⟩]
  mode := .heredoc [] []

theorem read_header {path : Text} (noNul : '\x00' ∉ path) :
    Lexer.read {} ("LC_ALL=C LANG=C cat > ".toList ++ (shellQuote path ++ " <<'PROTEAN_EOF'\n".toList)) =
      some (atBody path) := by
  have start : Lexer.read {} "LC_ALL=C LANG=C cat > ".toList = some
      { tokens := [.word ⟨"LC_ALL=C".toList.map (·, false), false⟩, .word ⟨"LANG=C".toList.map (·, false), false⟩,
          .word ⟨"cat".toList.map (·, false), false⟩, .op .great] } := by
    decide +kernel
  have rest : " <<'PROTEAN_EOF'\n".toList = ' ' :: '<' :: '<' :: '\'' :: (writeFileDelimiter ++ ['\'', '\n']) := rfl
  rw [Lexer.read_append, start, Option.bind_some, Lexer.read_append, read_shellQuote noNul ⟨rfl, rfl⟩, Option.bind_some,
    rest, Lexer.read_cons (Lexer.step_endsWord ⟨rfl, rfl⟩ rfl rfl)]
  exact Lexer.read_heredocOp ⟨rfl, rfl⟩ (by decide) (by decide)

theorem lex_writeFileCommand {path content : Text} (noNul : '\x00' ∉ path) (noNul' : '\x00' ∉ content)
    (accepted : writeFileDelimiter ∉ Text.lines content) :
    Lexer.lexFrom {} (sessionCommand (writeFileCommand path content)) =
      some ((atBody path).tokens, [content ++ ['\n']]) := by
  have shape : sessionCommand (writeFileCommand path content) =
      ("LC_ALL=C LANG=C cat > ".toList ++ (shellQuote path ++ " <<'PROTEAN_EOF'\n".toList)) ++
        (Text.unlines (Text.lines content) ++ writeFileDelimiter) := by
    have start : "LC_ALL=C LANG=C cat > ".toList = "LC_ALL=C LANG=C ".toList ++ "cat > ".toList := by decide +kernel
    have assoc : ∀ a b c d e : Text,
        a ++ (b ++ (c ++ (d ++ (content ++ '\n' :: e)))) = (a ++ b ++ (c ++ d)) ++ (content ++ ['\n'] ++ e) := by
      intros
      simp
    rw [Text.unlines_lines, start]
    exact assoc _ _ _ _ _
  have single : ∀ l ∈ Text.lines content, '\n' ∉ l := fun l member => Text.not_mem_of_mem_splitOn member
  have plain : ∀ l ∈ Text.lines content, '\x00' ∉ l := fun l member nul =>
    noNul' ((Text.mem_splitOn (by decide) content).mpr ⟨l, member, nul⟩)
  have body : (atBody path).read (Text.unlines (Text.lines content)) =
      some ((atBody path).inBody [] (Text.unlines (Text.lines content))) :=
    Lexer.read_body (q := atBody path) rfl rfl single plain accepted []
  have last : ((atBody path).inBody [] (content ++ ['\n'])).read writeFileDelimiter =
      some ((atBody path).inBody writeFileDelimiter (content ++ ['\n'])) :=
    Lexer.read_line (by decide) (by decide) [] _
  rw [shape, Lexer.lexFrom_append (read_header noNul), Lexer.lexFrom_append body, Text.unlines_lines, Lexer.lexFrom,
    last, Option.bind_some]
  rfl

/-- The one command: `cat` in the C locale, from the content to the file. -/
def catTo (path content : Text) : Simple where
  assignments := [("LC_ALL".toList, "C".toList), ("LANG".toList, "C".toList)]
  words := ["cat".toList]
  redirects := [.file 1 .output path, .heredoc 0 (content ++ ['\n'])]

theorem parseTokens_atBody (path content : Text) :
    parseTokens {} [content ++ ['\n']] (atBody path).tokens = some [(catTo path content, .newline)] := by
  have locale : Simple.add {} ⟨"LC_ALL=C".toList.map (·, false), false⟩ =
      some { assignments := [("LC_ALL".toList, "C".toList)] } := by decide +kernel
  have language : Simple.add { assignments := [("LC_ALL".toList, "C".toList)] }
      ⟨"LANG=C".toList.map (·, false), false⟩ =
      some { assignments := [("LC_ALL".toList, "C".toList), ("LANG".toList, "C".toList)] } := by decide +kernel
  have name : Simple.add { assignments := [("LC_ALL".toList, "C".toList), ("LANG".toList, "C".toList)] }
      ⟨"cat".toList.map (·, false), false⟩ =
      some { assignments := [("LC_ALL".toList, "C".toList), ("LANG".toList, "C".toList)], words := ["cat".toList] } := by
    decide +kernel
  have output : redirect none .great (.literal path) [content ++ ['\n']] =
      some (.file 1 .output path, [content ++ ['\n']]) := by
    rw [redirect, Word.value_literal]
    rfl
  have input : redirect none .dless (.literal writeFileDelimiter) [content ++ ['\n']] =
      some (.heredoc 0 (content ++ ['\n']), []) := rfl
  simp only [atBody, parseTokens, locale, language, name, output, input, Operator.separator]
  rfl

end

theorem writeFile_error_iff (path content : Text) :
    (∃ e, writeFile path content = .error e) ↔
      ∃ line ∈ Text.lines content, trimRightCR line = writeFileDelimiter := by
  unfold writeFile
  split
  · rename_i found
    exact ⟨fun _ => by simpa using found, fun _ => ⟨_, rfl⟩⟩
  · rename_i found
    refine ⟨fun refused => ?_, fun line => absurd (by simpa using line) found⟩
    obtain ⟨_, none⟩ := refused
    cases none

/-- A quoted text is one argument, and the text itself. -/
theorem add_literal (cmd : Simple) (s : Text) :
    cmd.add (.literal s) = some { cmd with words := cmd.words ++ [s] } := by
  have unassigned : (Word.literal s).assignment = none := by
    have none : (Word.literal s).chars.dropWhile (· ≠ ('=', false)) = [] := by
      simp [Word.literal, List.dropWhile_eq_nil_iff]
    rw [Word.assignment, none]
  rw [Simple.add, unassigned, Word.value_literal]
  split
  · rename_i first
    simp [Word.literal, first]
  · rfl

/-- A file is refused, exactly when a line of it is the delimiter up to the
carriage returns at its end, or the shell is given one command that writes it,
and nothing more. And a quoted text is one word wherever an argument stands. -/
theorem write_file_exact (path content s : Text) (noNul : '\x00' ∉ path) (noNul' : '\x00' ∉ content)
    (noNul'' : '\x00' ∉ s) :
    ((∃ e, writeFile path content = .error e) ↔
        ∃ line ∈ Text.lines content, trimRightCR line = writeFileDelimiter) ∧
      (∀ command, writeFile path content = .ok command → parse command = some [(catTo path content, .newline)]) ∧
      (∀ pre q post, Lexer.read {} pre = some q → q.Between → q.awaiting = none → Lexer.Delimited post →
        Lexer.lexFrom {} (pre ++ (shellQuote s ++ post)) =
          Lexer.lexFrom { q with tokens := q.tokens ++ [Token.word (.literal s)] } post) ∧
      ∀ cmd : Simple, cmd.add (.literal s) = some { cmd with words := cmd.words ++ [s] } := by
  refine ⟨writeFile_error_iff path content, ?_, ?_, fun cmd => add_literal cmd s⟩
  · intro command run
    have accepted : writeFileDelimiter ∉ Text.lines content := by
      refine ne_delimiter fun line member same => ?_
      obtain ⟨e, refused⟩ := (writeFile_error_iff path content).mpr ⟨line, member, same⟩
      rw [refused] at run
      cases run
    have same : command = sessionCommand (writeFileCommand path content) := by
      unfold writeFile at run
      split at run
      · cases run
      · exact (Except.ok.inj run).symm
    rw [same, parse, lex_writeFileCommand noNul noNul' accepted]
    exact parseTokens_atBody path content
  · intro pre q post read between argument delimited
    rw [Lexer.lexFrom_append read, lexFrom_shellQuote noNul'' between argument delimited]

/-- A path with a quote and a line break, and a line that only looks like the
delimiter. -/
theorem write_file_exact_sample :
    parse (sessionCommand (writeFileCommand "/etc/it's\nhere".toList "a\n PROTEAN_EOF".toList)) =
        some [(catTo "/etc/it's\nhere".toList "a\n PROTEAN_EOF".toList, .newline)] ∧
      Lexer.lexFrom {} "rm '$x; y'".toList =
        some ([.word ⟨"rm".toList.map (·, false), false⟩, .word (.literal "$x; y".toList)], []) := by
  have exact_at := write_file_exact "/etc/it's\nhere".toList "a\n PROTEAN_EOF".toList "$x; y".toList (by decide)
    (by decide) (by decide)
  refine ⟨exact_at.2.1 _ (by rfl), ?_⟩
  have word := exact_at.2.2.1 "rm ".toList ⟨[.word ⟨"rm".toList.map (·, false), false⟩], [], [], none, none, .normal⟩
    [] (by decide +kernel) ⟨rfl, rfl⟩ rfl (fun c none => by cases none)
  exact word

end Protean.SSHExec
