import Protean.Posix.Lexer

/- The grammar of lists of simple commands, with their assignments and
redirections. Compound commands and words that would be expanded are not read. -/
namespace Posix

/-- The field a word stands for, if no tilde or pathname expansion applies. -/
def Word.value (w : Word) : Option Text :=
  if w.chars.head? = some ('~', false) ∨ w.chars.any (fun c => !c.2 && c.1 ∈ ['*', '?', '[']) then none
  else some w.text

/-- `name=value`, with an unquoted name and sign. -/
def Word.assignment (w : Word) : Option (Text × Text) :=
  let name := w.chars.takeWhile (· ≠ ('=', false))
  match w.chars.dropWhile (· ≠ ('=', false)) with
  | [] => none
  | _ :: value =>
    if name.all (fun c => !c.2 && (c.1.isAlphanum || c.1 = '_')) ∧ name ≠ [] ∧ ¬ (name.map Prod.fst).head?.any Char.isDigit
    then some (name.map Prod.fst, value.map Prod.fst)
    else none

def reserved : List Text :=
  ["!".toList, "\x7b".toList, "\x7d".toList, "case".toList, "do".toList, "done".toList, "elif".toList, "else".toList,
    "esac".toList, "fi".toList, "for".toList, "if".toList, "in".toList, "then".toList, "until".toList, "while".toList]

inductive FileKind
  | input
  | output
  | append
  | readWrite
  | clobber
  | dupInput
  | dupOutput
  deriving DecidableEq, Repr

inductive Redirect
  | file (fd : Nat) (kind : FileKind) (target : Text)
  | heredoc (fd : Nat) (body : Text)
  deriving DecidableEq, Repr

structure Simple where
  assignments : List (Text × Text) := []
  words : List Text := []
  redirects : List Redirect := []
  deriving DecidableEq, Repr

inductive Separator
  | newline
  | semi
  | amp
  | pipe
  | andIf
  | orIf
  deriving DecidableEq, Repr

/-- The commands of a list, each with what ends it. -/
abbrev Program := List (Simple × Separator)

def Operator.separator : Operator → Option Separator
  | .semi => some .semi
  | .amp => some .amp
  | .pipe => some .pipe
  | .andIf => some .andIf
  | .orIf => some .orIf
  | _ => none

/-- After these another command has to come. -/
def Separator.continues : Separator → Bool
  | .pipe | .andIf | .orIf => true
  | _ => false

def Operator.file : Operator → Option (Nat × FileKind)
  | .less => some (0, .input)
  | .great => some (1, .output)
  | .dgreat => some (1, .append)
  | .lessGreat => some (0, .readWrite)
  | .clobber => some (1, .clobber)
  | .lessAnd => some (0, .dupInput)
  | .greatAnd => some (1, .dupOutput)
  | _ => none

/-- A redirection takes the word after it, one to a here-document the next body. -/
def redirect (fd : Option Nat) (o : Operator) (w : Word) (bodies : List Text) : Option (Redirect × List Text) :=
  match o.file with
  | some (standard, kind) => w.value.map fun target => (.file (fd.getD standard) kind target, bodies)
  | none =>
    if o = .dless ∨ o = .dlessDash then
      match bodies with
      | [] => none
      | body :: bodies => some (.heredoc (fd.getD 0) body, bodies)
    else none

/-- Assignments come before the name of the command, which may not be a
reserved word. -/
def Simple.add (cmd : Simple) (w : Word) : Option Simple :=
  if cmd.words = [] then
    match w.assignment with
    | some binding =>
      if w.chars.any (· = ('~', false)) then none
      else some { cmd with assignments := cmd.assignments ++ [binding] }
    | none =>
      if w.quoted = false ∧ w.text ∈ reserved then none
      else w.value.map fun name => { cmd with words := [name] }
  else w.value.map fun argument => { cmd with words := cmd.words ++ [argument] }

/-- A line without a command is nothing. -/
def Simple.close (cmd : Simple) (rest : Program) : Program := if cmd = {} then rest else (cmd, .newline) :: rest

def parseTokens (cmd : Simple) : List Text → List Token → Option Program
  | bodies, [] => if bodies = [] then some (cmd.close []) else none
  | bodies, .newline :: rest => (parseTokens {} bodies rest).map cmd.close
  | bodies, .word w :: rest =>
    match cmd.add w with
    | none => none
    | some cmd => parseTokens cmd bodies rest
  | bodies, .ioNumber fd :: .op o :: .word w :: rest =>
    match redirect (some fd) o w bodies with
    | none => none
    | some (r, bodies) => parseTokens { cmd with redirects := cmd.redirects ++ [r] } bodies rest
  | _, .ioNumber _ :: _ => none
  | bodies, .op o :: rest =>
    match o.separator with
    | some separator =>
      if cmd = {} then none
      else
        match parseTokens {} bodies rest with
        | none => none
        | some next => if next = [] ∧ separator.continues then none else some ((cmd, separator) :: next)
    | none =>
      match rest with
      | .word w :: rest =>
        match redirect none o w bodies with
        | none => none
        | some (r, bodies) => parseTokens { cmd with redirects := cmd.redirects ++ [r] } bodies rest
      | _ => none

/-- The program that a text is for the shell. -/
def parse (t : Text) : Option Program :=
  match Lexer.lexFrom {} t with
  | none => none
  | some (tokens, bodies) => parseTokens {} bodies tokens

theorem Word.value_literal (t : Text) : (Word.literal t).value = some t := by
  have unquoted : (Word.literal t).chars.any (fun c => !c.2 && c.1 ∈ ['*', '?', '[']) = false := by
    simp [Word.literal]
  have tilde : (Word.literal t).chars.head? ≠ some ('~', false) := by
    cases t <;> simp [Word.literal]
  have text : (Word.literal t).text = t := by simp [Word.text, Word.literal, Function.comp_def]
  rw [Word.value, unquoted, if_neg (by simp [tilde]), text]

example : parse "a=1 grep -v 'x y' < f | sort 2>&1 # rest".toList =
    some [(⟨[("a".toList, "1".toList)], ["grep".toList, "-v".toList, "x y".toList],
        [.file 0 .input "f".toList]⟩, .pipe),
      (⟨[], ["sort".toList], [.file 2 .dupOutput "1".toList]⟩, .newline)] := by
  decide +kernel

end Posix
