import Protean.Text

/- The token recognition of the POSIX shell command language, character by
character: quoting, comments, operators and here-documents. Parameter, command
and arithmetic expansions are not read, nor here-documents in which they would
take place. -/
namespace Posix

inductive Operator
  | andIf
  | orIf
  | dsemi
  | dless
  | dgreat
  | lessAnd
  | greatAnd
  | lessGreat
  | dlessDash
  | clobber
  | amp
  | semi
  | less
  | great
  | pipe
  | lparen
  | rparen
  deriving DecidableEq, Repr

/-- The operator that begins with a character. -/
def Operator.start : Char → Option Operator
  | '&' => some .amp
  | ';' => some .semi
  | '<' => some .less
  | '>' => some .great
  | '|' => some .pipe
  | '(' => some .lparen
  | ')' => some .rparen
  | _ => none

/-- The longer operator with one more character. -/
def Operator.extend : Operator → Char → Option Operator
  | .amp, '&' => some .andIf
  | .pipe, '|' => some .orIf
  | .semi, ';' => some .dsemi
  | .less, '<' => some .dless
  | .less, '&' => some .lessAnd
  | .less, '>' => some .lessGreat
  | .great, '>' => some .dgreat
  | .great, '&' => some .greatAnd
  | .great, '|' => some .clobber
  | .dless, '-' => some .dlessDash
  | _, _ => none

/-- The characters of a word, each with whether it was quoted, and whether
there was any quoting in it. -/
structure Word where
  chars : List (Char × Bool) := []
  quoted : Bool := false
  deriving DecidableEq, Repr

/-- The word after quote removal. -/
def Word.text (w : Word) : Text := w.chars.map Prod.fst

def Word.add (w : Word) (c : Char) (quoted : Bool) : Word := ⟨w.chars ++ [(c, quoted)], w.quoted || quoted⟩

/-- A text that is quoted from end to end. -/
def Word.literal (t : Text) : Word := ⟨t.map (·, true), true⟩

inductive Token
  | word (w : Word)
  | ioNumber (fd : Nat)
  | op (o : Operator)
  | newline
  deriving DecidableEq, Repr

/-- A here-document whose body is still to come; `strip` is for `<<-`. -/
structure HereDoc where
  delimiter : Text
  strip : Bool
  deriving DecidableEq, Repr

inductive Mode
  | normal
  | escape
  | single
  | double
  | doubleEscape
  | comment
  | operator (o : Operator)
  | heredoc (line body : Text)
  deriving DecidableEq, Repr

/-- What has been read so far: the tokens, the bodies of the here-documents
among them, and what is under way. -/
structure Lexer where
  tokens : List Token := []
  bodies : List Text := []
  pending : List HereDoc := []
  awaiting : Option Bool := none
  word : Option Word := none
  mode : Mode := .normal
  deriving DecidableEq, Repr

namespace Lexer

def add (q : Lexer) (c : Char) (quoted : Bool) : Lexer := { q with word := some ((q.word.getD {}).add c quoted) }

/-- A quote begins: there is a word, even if nothing follows. -/
def mark (q : Lexer) : Lexer := { q with word := some { q.word.getD {} with quoted := true } }

def emit (q : Lexer) (w : Word) : Option Lexer :=
  match q.awaiting with
  | none => some { q with tokens := q.tokens ++ [.word w], word := none }
  | some strip =>
    -- the delimiter of a here-document
    if w.quoted then
      some { q with
        tokens := q.tokens ++ [.word w]
        word := none
        awaiting := none
        pending := q.pending ++ [⟨w.text, strip⟩] }
    else none

def endWord (q : Lexer) : Option Lexer :=
  match q.word with
  | none => some q
  | some w => q.emit w

/-- The word before a redirection is a file descriptor if it is a number. -/
def endNumber (q : Lexer) : Option Lexer :=
  match q.word with
  | none => some q
  | some w =>
    match if w.quoted then none else Text.readDecimal w.text with
    | some fd => some { q with tokens := q.tokens ++ [.ioNumber fd], word := none }
    | none => q.emit w

def endOperator (q : Lexer) (o : Operator) : Lexer :=
  { q with
    tokens := q.tokens ++ [.op o]
    awaiting := if o = .dless then some false else if o = .dlessDash then some true else none
    mode := .normal }

/-- The bodies of here-documents follow the line their operators are on. -/
def endLine (q : Lexer) : Lexer :=
  { q with tokens := q.tokens ++ [.newline], mode := if q.pending = [] then .normal else .heredoc [] [] }

/-- A line of a body: the delimiter ends it. -/
def endBodyLine (q : Lexer) (line body : Text) : Lexer :=
  match q.pending with
  | [] => { q with mode := .normal }
  | h :: rest =>
    let line := if h.strip then line.dropWhile (· = '\t') else line
    if line = h.delimiter then
      { q with
        bodies := q.bodies ++ [body]
        pending := rest
        mode := if rest = [] then .normal else .heredoc [] [] }
    else { q with mode := .heredoc [] (body ++ line ++ ['\n']) }

/-- A character outside quotes. -/
def plain (q : Lexer) (c : Char) : Option Lexer :=
  if c = '\n' then q.endWord.map endLine
  else if c = ' ' ∨ c = '\t' then q.endWord
  else
    match Operator.start c with
    | some o => (if o = .less ∨ o = .great then q.endNumber else q.endWord).map ({ · with mode := .operator o })
    | none =>
      if c = '\'' then some { q.mark with mode := .single }
      else if c = '"' then some { q.mark with mode := .double }
      else if c = '\\' then some { q with mode := .escape }
      else if c = '#' ∧ q.word = none then some { q with mode := .comment }
      else if c = '$' ∨ c = '\x60' then none
      else some (q.add c false)

def step (q : Lexer) (c : Char) : Option Lexer :=
  if c = '\x00' then none
  else
    match q.mode with
    | .normal => q.plain c
    | .escape =>
      -- a line that ends in a backslash goes on
      if c = '\n' then some { q with mode := .normal } else some { q.add c true with mode := .normal }
    | .single => if c = '\'' then some { q with mode := .normal } else some (q.add c true)
    | .double =>
      if c = '"' then some { q with mode := .normal }
      else if c = '\\' then some { q with mode := .doubleEscape }
      else if c = '$' ∨ c = '\x60' then none
      else some (q.add c true)
    | .doubleEscape =>
      if c = '\n' then some { q with mode := .double }
      else if c ∈ ['$', '\x60', '"', '\\'] then some { q.add c true with mode := .double }
      else some { (q.add '\\' true).add c true with mode := .double }
    | .comment => if c = '\n' then { q with mode := .normal }.plain c else some q
    | .operator o =>
      match o.extend c with
      | some o => some { q with mode := .operator o }
      | none => (q.endOperator o).plain c
    | .heredoc line body =>
      if c = '\n' then some (q.endBodyLine line body) else some { q with mode := .heredoc (line ++ [c]) body }

/-- The end of the input, which ends a line as well. -/
def finish (q : Lexer) : Option Lexer :=
  let ended :=
    match q.mode with
    | .normal | .comment => q.endWord
    | .operator o => some (q.endOperator o)
    | .heredoc line body => some (q.endBodyLine line body)
    | .escape | .single | .double | .doubleEscape => none
  ended.filter fun q => q.pending = []

def read (q : Lexer) (t : Text) : Option Lexer := t.foldlM step q

/-- The tokens of a text and the bodies of its here-documents, read on from a
state. -/
def lexFrom (q : Lexer) (t : Text) : Option (List Token × List Text) :=
  ((q.read t).bind finish).map fun q => (q.tokens, q.bodies)

/-- Between two tokens. -/
def Between (q : Lexer) : Prop := q.mode = .normal ∧ q.word = none

/-- The same with a word under way. -/
def inWord (q : Lexer) (w : Word) (mode : Mode) : Lexer := { q with word := some w, mode := mode }

/-- The same at the beginning of a line of a here-document. -/
def inBody (q : Lexer) (line body : Text) : Lexer := { q with mode := .heredoc line body }

section
variable {q q' : Lexer} {w : Word} {c : Char} {t : Text}

theorem read_append (t u : Text) : q.read (t ++ u) = (q.read t).bind (·.read u) := List.foldlM_append

theorem read_cons (step : q.step c = some q') (t : Text) : q.read (c :: t) = q'.read t := by
  simp [read, step]

theorem lexFrom_append (read : q.read t = some q') (u : Text) : q.lexFrom (t ++ u) = q'.lexFrom u := by
  rw [lexFrom, read_append, read]
  rfl

theorem lexFrom_cons (c : Char) (t : Text) : q.lexFrom (c :: t) = (q.step c).bind (·.lexFrom t) := by
  simp only [lexFrom, read, List.foldlM_cons]
  cases q.step c <;> rfl

theorem literal_add (t : Text) (c : Char) :
    (Word.literal t).add c true = Word.literal (t ++ [c]) := by
  simp [Word.literal, Word.add]

/-- A quote that begins a word. -/
theorem step_open (between : q.Between) : q.step '\'' = some (q.inWord (.literal []) .single) := by
  simp [step, plain, Operator.start, mark, between.1, between.2, inWord, Word.literal]

/-- Characters between single quotes are taken as they are. -/
theorem step_single (noQuote : c ≠ '\'') (noNul : c ≠ '\x00') :
    (q.inWord w .single).step c = some (q.inWord (w.add c true) .single) := by
  simp [step, inWord, add, noQuote, noNul]

theorem read_single (noQuote : '\'' ∉ t) (noNul : '\x00' ∉ t) (u : Text) :
    (q.inWord (.literal u) .single).read t = some (q.inWord (.literal (u ++ t)) .single) := by
  induction t generalizing u with
  | nil => rw [List.append_nil]; rfl
  | cons c t ih =>
    rw [List.mem_cons, not_or] at noQuote noNul
    rw [read_cons (step_single (Ne.symm noQuote.1) (Ne.symm noNul.1)), literal_add, ih noQuote.2 noNul.2,
      List.append_assoc, List.singleton_append]

theorem step_close : (q.inWord w .single).step '\'' = some (q.inWord w .normal) := rfl

theorem step_backslash : (q.inWord w .normal).step '\\' = some (q.inWord w .escape) := rfl

theorem step_escape (noNewline : c ≠ '\n') (noNul : c ≠ '\x00') :
    (q.inWord w .escape).step c = some (q.inWord (w.add c true) .normal) := by
  simp [step, inWord, add, noNewline, noNul]

theorem step_reopen (quoted : w.quoted = true) : (q.inWord w .normal).step '\'' = some (q.inWord w .single) := by
  obtain ⟨chars, _⟩ := w
  subst quoted
  rfl

/-- What ends a word: a blank, a line break or an operator. -/
def endsWord (c : Char) : Bool := c = ' ' ∨ c = '\t' ∨ c = '\n' ∨ (Operator.start c).isSome

theorem emit_inWord (between : q.Between) : (q.inWord w .normal).emit w = q.emit w := by
  obtain ⟨tokens, bodies, pending, awaiting, word, mode⟩ := q
  obtain ⟨rfl, rfl⟩ := between
  rfl

theorem emit_between (between : q.Between) (emitted : q.emit w = some q') : q'.Between := by
  unfold emit at emitted
  split at emitted
  · obtain rfl := Option.some.inj emitted
    exact ⟨between.1, rfl⟩
  · split at emitted
    · obtain rfl := Option.some.inj emitted
      exact ⟨between.1, rfl⟩
    · cases emitted

/-- What such a character does once the word is closed. -/
def close (c : Char) (q : Lexer) : Lexer :=
  if c = '\n' then q.endLine
  else
    match Operator.start c with
    | some o => { q with mode := .operator o }
    | none => q

theorem plain_of_endsWord (ends : endsWord c = true) :
    q.plain c = (if c = '<' ∨ c = '>' then q.endNumber else q.endWord).map (close c) := by
  have cases : c = ' ' ∨ c = '\t' ∨ c = '\n' ∨ (Operator.start c).isSome := of_decide_eq_true ends
  rcases cases with rfl | rfl | rfl | operator
  · exact Option.map_id'.symm
  · exact Option.map_id'.symm
  · rfl
  · unfold Operator.start at operator
    split at operator
    all_goals first | rfl | cases operator

theorem step_normal (normal : q.mode = .normal) (ends : endsWord c = true) : q.step c = q.plain c := by
  have noNul : c ≠ '\x00' := by
    rintro rfl
    cases ends
  rw [step, if_neg noNul, normal]

/-- A quoted word is a token of its own when a blank, a line break or an
operator follows. -/
theorem step_endsWord (between : q.Between) (quoted : w.quoted = true) (ends : endsWord c = true) :
    (q.inWord w .normal).step c = (q.emit w).bind (·.step c) := by
  have ended : (q.inWord w .normal).endWord = q.emit w := emit_inWord between
  have number : (q.inWord w .normal).endNumber = q.emit w := by
    simp only [endNumber, inWord, quoted, if_true]
    exact emit_inWord between
  rw [step_normal rfl ends, plain_of_endsWord ends, ended, number, ite_self]
  cases emitted : q.emit w with
  | none => rfl
  | some q' =>
    obtain ⟨normal, none⟩ := emit_between between emitted
    have closed : q'.endNumber = some q' ∧ q'.endWord = some q' := by simp [endWord, endNumber, none]
    rw [Option.bind_some, step_normal normal ends, plain_of_endsWord ends, closed.1, closed.2, ite_self]

/-- The same at the end of the input. -/
theorem finish_word (between : q.Between) : (q.inWord w .normal).finish = (q.emit w).bind finish := by
  have ended : (q.inWord w .normal).endWord = q.emit w := emit_inWord between
  have here : (q.inWord w .normal).finish = (q.inWord w .normal).endWord.filter fun q => q.pending = [] := rfl
  rw [here, ended]
  cases emitted : q.emit w with
  | none => rfl
  | some q' =>
    obtain ⟨normal, none⟩ := emit_between between emitted
    simp [finish, normal, endWord, none]

/-- What may follow a word. -/
def Delimited (t : Text) : Prop := ∀ c ∈ t.head?, endsWord c = true

theorem lexFrom_word (between : q.Between) (quoted : w.quoted = true) (delimited : Delimited t) :
    (q.inWord w .normal).lexFrom t = (q.emit w).bind (·.lexFrom t) := by
  cases t with
  | nil =>
    have here : (q.inWord w .normal).lexFrom [] = ((q.inWord w .normal).finish).map fun q => (q.tokens, q.bodies) := rfl
    rw [here, finish_word between]
    cases q.emit w <;> rfl
  | cons c t =>
    rw [lexFrom_cons, step_endsWord between quoted (delimited c rfl)]
    cases q.emit w with
    | none => rfl
    | some q' => exact (lexFrom_cons c t).symm

/-- The operator of a here-document with a quoted delimiter, at the end of its line. -/
theorem read_heredocOp (between : q.Between) (noQuote : '\'' ∉ t) (noNul : '\x00' ∉ t) :
    q.read ('<' :: '<' :: '\'' :: (t ++ ['\'', '\n'])) =
      some { q with
        tokens := q.tokens ++ [.op .dless, .word (.literal t), .newline]
        pending := q.pending ++ [⟨t, false⟩]
        awaiting := none
        mode := .heredoc [] [] } := by
  obtain ⟨tokens, bodies, pending, awaiting, word, mode⟩ := q
  obtain ⟨rfl, rfl⟩ := between
  have text : (Word.literal t).text = t := by simp [Word.text, Word.literal, Function.comp_def]
  have first : step ⟨tokens, bodies, pending, awaiting, none, .normal⟩ '<' =
      some ⟨tokens, bodies, pending, awaiting, none, .operator .less⟩ := rfl
  have second : step ⟨tokens, bodies, pending, awaiting, none, .operator .less⟩ '<' =
      some ⟨tokens, bodies, pending, awaiting, none, .operator .dless⟩ := rfl
  have quote : step ⟨tokens, bodies, pending, awaiting, none, .operator .dless⟩ '\'' =
      some (inWord ⟨tokens ++ [.op .dless], bodies, pending, some false, none, .normal⟩ (.literal []) .single) := rfl
  have newline : step (inWord ⟨tokens ++ [.op .dless], bodies, pending, some false, none, .normal⟩ (.literal t) .normal)
      '\n' = some ⟨tokens ++ [.op .dless] ++ [.word (.literal t)] ++ [.newline], bodies,
        pending ++ [⟨(Word.literal t).text, false⟩], none, none,
        if pending ++ [⟨(Word.literal t).text, false⟩] = [] then .normal else .heredoc [] []⟩ := rfl
  rw [read_cons first, read_cons second, read_cons quote, read_append, read_single noQuote noNul, Option.bind_some,
    List.nil_append, read_cons step_close, read_cons newline, text]
  simp [read]

theorem read_line (single : '\n' ∉ t) (noNul : '\x00' ∉ t) (line body : Text) :
    (q.inBody line body).read t = some (q.inBody (line ++ t) body) := by
  induction t generalizing line with
  | nil => rw [List.append_nil]; rfl
  | cons c t ih =>
    rw [List.mem_cons, not_or] at single noNul
    have first : (q.inBody line body).step c = some (q.inBody (line ++ [c]) body) := by
      simp [step, inBody, Ne.symm single.1, Ne.symm noNul.1]
    rw [read_cons first, ih single.2 noNul.2, List.append_assoc, List.singleton_append]

/-- A body goes on until a line that is the delimiter. -/
theorem read_body {h : HereDoc} {rest : List HereDoc} (pending : q.pending = h :: rest) (whole : h.strip = false)
    {ls : List Text} (single : ∀ l ∈ ls, '\n' ∉ l) (noNul : ∀ l ∈ ls, '\x00' ∉ l) (goesOn : h.delimiter ∉ ls)
    (body : Text) :
    (q.inBody [] body).read (Text.unlines ls) = some (q.inBody [] (body ++ Text.unlines ls)) := by
  induction ls generalizing body with
  | nil => rw [Text.unlines, List.map_nil, List.flatten_nil, List.append_nil]; rfl
  | cons l ls ih =>
    rw [List.forall_mem_cons] at single noNul
    rw [List.mem_cons, not_or] at goesOn
    have newline : (q.inBody l body).step '\n' = some (q.inBody [] (body ++ l ++ ['\n'])) := by
      have other : l ≠ h.delimiter := fun same => goesOn.1 same.symm
      simp [step, inBody, endBodyLine, pending, whole, other]
    have line := read_line (q := q) single.1 noNul.1 [] body
    rw [List.nil_append] at line
    rw [Text.unlines_cons, read_append, line, Option.bind_some, read_cons newline, ih single.2 noNul.2 goesOn.2]
    simp

end

end Lexer

end Posix
