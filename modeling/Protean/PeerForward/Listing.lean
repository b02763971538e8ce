import Protean.PeerForward.Sync

open Netfilter

namespace Protean.PeerForward

def verdictWord : Target → Option Text
  | .accept => some Word.accept
  | .drop => some Word.drop
  | .reject => some Word.reject
  | _ => none

/-- The comment and the verdict of a rule that has, besides addresses, nothing
else. -/
def plainParts : Rule → Option (Text × Text)
  | ⟨_, _, none, none, none, [.comment t], some target⟩ =>
    if t.all tagChar && commentFits t then (verdictWord target).map fun v => (t, v) else none
  | _ => none

/-- A comment is printed bare when it is letters, digits, dashes and
underscores, and in double quotes otherwise. -/
def commentWritten (t : Text) : Text :=
  if t ≠ [] ∧ (t.all fun c => c.isAlphanum || c ∈ ['-', '_']) = true then t else '"' :: t ++ ['"']

def addressWords (option : Text) (c : Cidr) : List (Text × Text) :=
  if c = .any then [] else [(option, option), (cidrText c, cidrText c)]

/-- The words of the line, each with what it is read as. -/
def lineWords (src dst : Cidr) (t v : Text) : List (Text × Text) :=
  addressWords Word.dashS src ++ addressWords Word.dashD dst ++
    [(Word.dashM, Word.dashM), (Word.comment, Word.comment), (Word.dashComment, Word.dashComment),
      (commentWritten t, t), (Word.dashJ, Word.dashJ), (v, v)]

/-- `iptables -S` on the rules this development spells out. Any other rule
gets a line with its comments that is no list of plain words. -/
def printSpec (r : Rule) : Text :=
  match plainParts r with
  | some (t, v) => [' '].intercalate ((lineWords r.src r.dst t v).map Prod.fst)
  | none => '\\' :: r.modules.flatMap fun
    | .comment t => t
    | _ => []

/-- A host whose packet filter prints rules that way. -/
def plainListing : Listing := ⟨true, printSpec, readRule⟩

theorem plainParts_eq_some {r : Rule} {t v : Text} (parts : plainParts r = some (t, v)) :
    ∃ target, r = { src := r.src, dst := r.dst, modules := [.comment t], target := some target } ∧
      verdictWord target = some v ∧ (∀ c ∈ t, tagChar c) ∧ commentFits t = true := by
  unfold plainParts at parts
  split at parts
  · rename_i target
    split at parts
    · rename_i plain
      rw [Bool.and_eq_true, List.all_eq_true] at plain
      obtain ⟨w, word, same⟩ := Option.map_eq_some_iff.mp parts
      cases same
      exact ⟨target, rfl, word, plain⟩
    · cases parts
  · cases parts

theorem readTarget_verdictWord {target : Target} {v : Text} (word : verdictWord target = some v) :
    readTarget v = target := by
  cases target <;> cases word <;> rfl

theorem readRule_lineWords {src dst : Cidr} {target : Target} {t v : Text} (word : verdictWord target = some v)
    (fits : commentFits t = true) :
    readRule ((lineWords src dst t v).map Prod.snd) =
      some { src := src, dst := dst, modules := [.comment t], target := some target } := by
  have addresses : lineWords src dst t v = addressWords Word.dashS src ++ addressWords Word.dashD dst ++ _ := rfl
  rw [addresses, addressWords, addressWords]
  split <;> split <;>
  · simp only [List.nil_append, List.cons_append, List.map_cons, List.map_nil, readRule, readOptions]
    simp (disch := decide) only [readOption_dashS, readOption_dashD, readOption_dashM, readOption_dashComment,
      readOption_dashJ, readCidr_cidrText, fits, if_true, Option.map_some, Option.bind_some,
      readTarget_verdictWord word]
    simp_all [Rule.addModule, Word.comment]

theorem literal_of_tagChar {c : Char} (tag : tagChar c = true) : Shell.literal c = true := by
  have apart : ∀ c ∈ Shell.metaChars, tagChar c = false := by decide
  by_contra odd
  rw [Shell.literal, decide_eq_true_eq, not_not] at odd
  rw [apart c odd] at tag
  cases tag

theorem writes_cidrText (c : Cidr) : Shell.Writes (cidrText c) (cidrText c) := by
  have digit : ∀ d : Char, d.isDigit = true → Shell.literal d = true := fun d digit =>
    literal_of_tagChar (by simp [tagChar, Char.isAlphanum, digit])
  refine .inl ⟨rfl, by simp [cidrText], fun d member => ?_⟩
  rcases List.mem_append.mp member with address | length
  · rcases addrText_chars c.addr d address with isDigit | rfl
    · exact digit d isDigit
    · decide
  · rcases List.mem_cons.mp length with rfl | length
    · decide
    · exact digit d (Text.isDigit_of_mem_decimal length)

theorem writes_comment {t : Text} (chars : ∀ c ∈ t, tagChar c = true) : Shell.Writes (commentWritten t) t := by
  unfold commentWritten
  split
  · rename_i bare
    exact .inl ⟨rfl, bare.1, fun c member => literal_of_tagChar (chars c member)⟩
  · refine .inr ⟨rfl, fun c member => ?_⟩
    have quoted : ∀ c ∈ ['"', '\\', '$', '\x60', '\n'], tagChar c = false := by decide
    have plain : c ∉ ['"', '\\', '$', '\x60', '\n'] := by
      intro odd
      have tag := chars c member
      rw [quoted c odd] at tag
      cases tag
    simpa [Shell.special] using plain

/-- The shell splits a printed line into the words it was made of. -/
theorem plainWords_printSpec {r : Rule} {t v : Text} (parts : plainParts r = some (t, v)) :
    Shell.plainWords false none (printSpec r) = some ((lineWords r.src r.dst t v).map Prod.snd) := by
  obtain ⟨target, -, word, chars, -⟩ := plainParts_eq_some parts
  simp only [printSpec, parts]
  refine Shell.plainWords_line fun w member => ?_
  have address : ∀ option c, (option = Word.dashS ∨ option = Word.dashD) → w ∈ addressWords option c →
      Shell.Writes w.1 w.2 := by
    intro option c known inside
    unfold addressWords at inside
    split at inside
    · cases inside
    · rcases List.mem_pair.mp inside with rfl | rfl
      · rcases known with rfl | rfl <;> exact .inl (by decide)
      · exact writes_cidrText c
  rw [lineWords, List.mem_append, List.mem_append] at member
  rcases member with (source | destination) | fixed
  · exact address _ _ (.inl rfl) source
  · exact address _ _ (.inr rfl) destination
  · have verdict : Shell.Writes v v := by
      cases target <;> cases word <;> exact .inl (by decide)
    simp only [List.mem_cons, List.not_mem_nil, or_false] at fixed
    rcases fixed with rfl | rfl | rfl | rfl | rfl | rfl
    · exact .inl (by decide)
    · exact .inl (by decide)
    · exact .inl (by decide)
    · exact writes_comment chars
    · exact .inl (by decide)
    · exact verdict

theorem infix_commentWritten (t : Text) : t <:+: commentWritten t := by
  unfold commentWritten
  split
  · exact List.infix_rfl
  · exact ⟨['"'], ['"'], rfl⟩

/-- That printing is a documented one. -/
theorem plainListing_documented : plainListing.Documented where
  readBack := by
    intro r words split
    change Shell.plainWords false none (printSpec r) = some words at split
    cases parts : plainParts r with
    | none =>
      simp only [printSpec, parts] at split
      cases split
    | some pair =>
      obtain ⟨t, v⟩ := pair
      obtain ⟨target, shape, word, -, fits⟩ := plainParts_eq_some parts
      rw [plainWords_printSpec parts] at split
      rw [← Option.some.inj split]
      refine (readRule_lineWords word fits).trans ?_
      rw [← shape]
  verbatim := by
    intro r t inside chars
    change t <:+: printSpec r
    cases parts : plainParts r with
    | none =>
      simp only [printSpec, parts]
      have joined : t ∈ r.modules.map (fun | .comment t => t | _ => []) := List.mem_map.mpr ⟨_, inside, rfl⟩
      exact (List.infix_of_mem_flatten joined).trans (List.suffix_cons _ _).isInfix
    | some pair =>
      obtain ⟨t', v⟩ := pair
      obtain ⟨target, shape, -, -⟩ := plainParts_eq_some parts
      rw [shape, List.mem_singleton] at inside
      cases inside
      simp only [printSpec, parts]
      have written : commentWritten t ∈ (lineWords r.src r.dst t v).map Prod.fst := by simp [lineWords]
      exact (infix_commentWritten t).trans (List.infix_of_mem_flatten (List.mem_intersperse_of_mem written))

end Protean.PeerForward
