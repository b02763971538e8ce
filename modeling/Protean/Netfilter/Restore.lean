import Protean.Netfilter.Ruleset
import Protean.Netfilter.Syntax

namespace Netfilter

/-- Where the argument splitter stands: outside quotes, inside them, or right
after a backslash inside them. -/
inductive QuoteState
  | plain
  | quoted
  | escaped
  deriving DecidableEq

/-- The restore format's argument splitter. `arg` is the argument under way;
a closing quote ends it at once, and an unclosed one ends with the line. -/
def splitArgs : QuoteState → Text → Text → List Text
  | _, arg, [] => if arg = [] then [] else [arg]
  | .escaped, arg, c :: rest => splitArgs .quoted (arg ++ [c]) rest
  | .quoted, arg, c :: rest =>
    if c = '\\' then splitArgs .escaped arg rest
    else if c = '"' then arg :: splitArgs .plain [] rest
    else splitArgs .quoted (arg ++ [c]) rest
  | .plain, arg, c :: rest =>
    if c = '"' then splitArgs .quoted arg rest
    else if c = ' ' ∨ c = '\t' then
      if arg = [] then splitArgs .plain [] rest else arg :: splitArgs .plain [] rest
    else splitArgs .plain (arg ++ [c]) rest

def args (line : Text) : List Text := splitArgs .plain [] line

def readHook (t : Text) : Option Hook :=
  if t = Word.input then some .input
  else if t = Word.forward then some .forward
  else if t = Word.output then some .output
  else if t = Word.prerouting then some .prerouting
  else if t = Word.postrouting then some .postrouting
  else none

def readPolicy (t : Text) : Option Policy :=
  if t = Word.accept then some .accept
  else if t = Word.drop then some .drop
  else none

def readSideTable (t : Text) : Option SideTable :=
  if t = Word.nat then some .nat
  else if t = Word.mangle then some .mangle
  else if t = Word.raw then some .raw
  else if t = Word.security then some .security
  else none

/-- The table a section names: `none` is the filter table. -/
def readTable (t : Text) : Option (Option SideTable) :=
  if t = Word.filter then some none else (readSideTable t).map some

/-- A restore text half read: the tables committed so far and the one that is
open, if any. -/
structure Progress where
  done : Dump := ⟨none, fun _ => none⟩
  opened : Option (Option SideTable × Table) := none

def Dump.commit (d : Dump) : Option SideTable → Table → Dump
  | none, t => { d with filter := some t }
  | some name, t => { d with side := fun s => if s = name then some t else d.side s }

/-- `:CHAIN POLICY [counters]`. A chain that is not built in is created, and
its policy is a dash. -/
def declareChain (t : Table) : List Text → Option Table
  | chain :: policy :: _ =>
    match readHook chain with
    | some hook => (readPolicy policy).map fun p => t.modify hook fun c => { c with policy := p }
    | none =>
      if policy = ['-'] then
        some { t with user := fun name => if name = chain then some [] else t.user name }
      else none
  | _ => none

/-- `-A CHAIN spec`; `read` is the rule the installed program makes of a
specification. -/
def appendRule (read : List Text → Option Rule) (t : Table) : List Text → Option Table
  | command :: chain :: spec =>
    if command = Word.dashA then
      (read spec).bind fun rule =>
        match readHook chain with
        | some hook => some (t.append hook [rule])
        | none => (t.user chain).map fun rules =>
            { t with user := fun name => if name = chain then some (rules ++ [rule]) else t.user name }
    else none
  | _ => none

/-- One line of a restore text. -/
def readLine (read : List Text → Option Rule) (s : Progress) (line : Text) : Option Progress :=
  match line with
  | [] => some s
  | '#' :: _ => some s
  | '*' :: name =>
    match s.opened with
    | none => (readTable name).map fun table => { s with opened := some (table, .empty) }
    | some _ => none
  | first :: rest =>
    s.opened.bind fun (table, t) =>
      if line = Word.commit then some ⟨s.done.commit table t, none⟩
      else if first = ':' then
        (declareChain t (args rest)).map fun t => { s with opened := some (table, t) }
      else (appendRule read t (args line)).map fun t => { s with opened := some (table, t) }

def readLines (read : List Text → Option Rule) (s : Progress) (ls : List Text) : Option Progress :=
  ls.foldlM (readLine read) s

/-- `iptables-restore --test`: the listing a text stands for, if the program
accepts it. A section left open is refused. -/
def readRestore (read : List Text → Option Rule) (text : Text) : Option Dump :=
  (readLines read {} (Text.lines text)).bind fun s =>
    match s.opened with
    | none => some s.done
    | some _ => none

section
variable {read : List Text → Option Rule}

theorem readLines_append (s : Progress) (ls ms : List Text) :
    readLines read s (ls ++ ms) = (readLines read s ls).bind fun t => readLines read t ms := by
  simp [readLines, List.foldlM_append]

theorem readLines_cons (s : Progress) (l : Text) (ls : List Text) :
    readLines read s (l :: ls) = (readLine read s l).bind fun t => readLines read t ls := by
  simp [readLines, List.foldlM_cons]

/-- A character that neither separates nor quotes an argument. -/
def Plain (c : Char) : Prop := c ≠ '"' ∧ c ≠ ' ' ∧ c ≠ '\t'

theorem splitArgs_plain {word : Text} (plain : ∀ c ∈ word, Plain c) (arg rest : Text) :
    splitArgs .plain arg (word ++ rest) = splitArgs .plain (arg ++ word) rest := by
  induction word generalizing arg with
  | nil => simp
  | cons c word ih =>
    obtain ⟨quote, space, tab⟩ := plain c (List.mem_cons_self ..)
    rw [List.cons_append, splitArgs, if_neg quote, if_neg (by simp [space, tab]),
      ih (fun d member => plain d (List.mem_cons_of_mem _ member)), List.append_assoc]
    rfl

theorem args_word {word : Text} (plain : ∀ c ∈ word, Plain c) (nonempty : word ≠ []) (rest : Text) :
    args (word ++ ' ' :: rest) = word :: args rest := by
  rw [args, splitArgs_plain plain, List.nil_append, splitArgs, if_neg (by decide),
    if_pos (Or.inl rfl), if_neg nonempty]
  rfl

/-- What a quoted text without quotes of its own says: a backslash stands for
the next character, and a last one swallows the closing quote. -/
def unescape : Text → Text
  | [] => []
  | ['\\'] => ['"']
  | '\\' :: c :: rest => c :: unescape rest
  | c :: rest => c :: unescape rest

theorem unescape_cons {c : Char} (slash : c ≠ '\\') (rest : Text) :
    unescape (c :: rest) = c :: unescape rest := by
  rw [unescape]
  · exact fun same => absurd same slash
  · exact fun _ _ same => absurd same slash

/-- At the end of a line such a text is always one argument, however it ends. -/
theorem splitArgs_quoted {body : Text} (noQuote : '"' ∉ body) (arg : Text) :
    splitArgs .quoted arg (body ++ ['"']) = [arg ++ unescape body] := by
  induction body using unescape.induct generalizing arg with
  | case1 | case2 => simp [splitArgs, unescape]
  | case3 c rest ih =>
    have later : '"' ∉ rest := fun member => noQuote (by simp [member])
    simp [splitArgs, unescape, ih later]
  | case4 c rest single escape ih =>
    have quote : c ≠ '"' := fun same => noQuote (same ▸ List.mem_cons_self ..)
    have later : '"' ∉ rest := fun member => noQuote (by simp [member])
    have slash : c ≠ '\\' := by
      rintro rfl
      cases rest with
      | nil => exact single rfl rfl
      | cons d ds => exact escape d ds rfl rfl
    simp [splitArgs, slash, quote, ih later, unescape_cons slash]

end

end Netfilter
