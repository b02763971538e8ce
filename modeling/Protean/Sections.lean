import Mathlib.Data.List.DropRight
import Protean.Text

/-! Configuration files of nested sections, `name { key = value }`. -/

namespace Sections

inductive Event
  | enter (name : Text)
  | set (key value : Text)
  | leave
  deriving DecidableEq, Repr

def blank (c : Char) : Bool := c = ' ' || c = '\t' || c = '\r'

/-- The characters that end a value. A value has one line, and ends before a
comment and before the end of its section. -/
def endsValue (c : Char) : Bool := c = '\n' || c = '#' || c = '}'

def endsName (c : Char) : Bool := blank c || endsValue c || c = '{' || c = '='

def trim (t : Text) : Text := ((t.dropWhile blank).reverse.dropWhile blank).reverse

inductive Mode
  | idle
  | comment
  | name (t : Text)
  | named (t : Text)
  | value (key t : Text)
  deriving DecidableEq, Repr

structure Reader where
  events : List Event := []
  mode : Mode := .idle
  deriving DecidableEq, Repr

/-- After a name comes the section or the value it names. -/
def Reader.afterName (r : Reader) (t : Text) (c : Char) : Option Reader :=
  if c = '{' then some ⟨r.events ++ [.enter t], .idle⟩
  else if c = '=' then some { r with mode := .value t [] }
  else if blank c then some { r with mode := .named t }
  else none

def Reader.step (r : Reader) (c : Char) : Option Reader :=
  match r.mode with
  | .idle =>
    if blank c || c = '\n' then some r
    else if c = '#' then some { r with mode := .comment }
    else if c = '}' then some { r with events := r.events ++ [.leave] }
    else if c = '{' || c = '=' then none
    else some { r with mode := .name [c] }
  | .comment => some (if c = '\n' then { r with mode := .idle } else r)
  | .name t => if endsName c then r.afterName t c else some { r with mode := .name (t ++ [c]) }
  | .named t => r.afterName t c
  | .value key t =>
    if c = '\n' then some ⟨r.events ++ [.set key (trim t)], .idle⟩
    else if c = '#' then some ⟨r.events ++ [.set key (trim t)], .comment⟩
    else if c = '}' then some ⟨r.events ++ [.set key (trim t), .leave], .idle⟩
    else some { r with mode := .value key (t ++ [c]) }

def Reader.read (r : Reader) (t : Text) : Option Reader := t.foldlM Reader.step r

def Reader.finish (r : Reader) : Option (List Event) :=
  match r.mode with
  | .idle | .comment => some r.events
  | .value key t => some (r.events ++ [.set key (trim t)])
  | .name _ | .named _ => none

/-- Every section that is left was entered, and the other way around. -/
def nested : Nat → List Event → Bool
  | depth, [] => depth = 0
  | depth, .enter _ :: es => nested (depth + 1) es
  | depth, .set _ _ :: es => nested depth es
  | 0, .leave :: _ => false
  | depth + 1, .leave :: es => nested depth es

def parse (t : Text) : Option (List Event) := ((Reader.read {} t).bind Reader.finish).filter (nested 0)

/-- A section and what is in it. -/
def within (name : Text) (body : List Event) : List Event := .enter name :: body ++ [.leave]

/-- One line of a file. -/
def Event.line (indent : Text) : Event → Text
  | .enter name => indent ++ name ++ " \x7b\n".toList
  | .set key value => indent ++ key ++ " = ".toList ++ value ++ ['\n']
  | .leave => indent ++ "\x7d\n".toList

def write (lines : List (Text × Event)) : Text := lines.flatMap fun l => l.2.line l.1

def IsName (t : Text) : Prop := t ≠ [] ∧ ∀ c ∈ t, endsName c = false

def IsValue (t : Text) : Prop := trim t = t ∧ ∀ c ∈ t, endsValue c = false

instance (t : Text) : Decidable (IsName t) := inferInstanceAs (Decidable (_ ∧ _))

instance (t : Text) : Decidable (IsValue t) := inferInstanceAs (Decidable (_ ∧ _))

/-- What can come out of a file. -/
def Event.Plain : Event → Prop
  | .enter name => IsName name
  | .set key value => IsName key ∧ IsValue value
  | .leave => True

theorem plain_enter {name : Text} : (Event.enter name).Plain ↔ IsName name := Iff.rfl

theorem plain_set {key value : Text} : (Event.set key value).Plain ↔ IsName key ∧ IsValue value := Iff.rfl

theorem plain_leave : Event.leave.Plain ↔ True := Iff.rfl

section
variable {c : Char} {t : Text}

theorem mem_of_mem_trim (member : c ∈ trim t) : c ∈ t := by
  rw [trim, List.mem_reverse] at member
  have inside := (List.dropWhile_suffix blank).mem member
  exact (List.dropWhile_suffix blank).mem (List.mem_reverse.mp inside)

theorem trim_cons_blank (space : blank c = true) (t : Text) : trim (c :: t) = trim t := by
  rw [trim, List.dropWhile_cons_of_pos space, trim]

theorem dropWhile_blank_of_head (head : ∀ c ∈ t.head?, blank c = false) : t.dropWhile blank = t := by
  cases t with
  | nil => rfl
  | cons c t => rw [List.dropWhile_cons_of_neg (by simp [head c rfl])]

theorem trim_eq_self (head : ∀ c ∈ t.head?, blank c = false) (last : ∀ c ∈ t.getLast?, blank c = false) :
    trim t = t := by
  rw [trim, dropWhile_blank_of_head head, dropWhile_blank_of_head, List.reverse_reverse]
  rwa [List.head?_reverse]

/-- Both ends are clear after one pass. -/
theorem trim_trim (t : Text) : trim (trim t) = trim t := by
  have front : (trim t).dropWhile blank = trim t := by
    rw [List.dropWhile_eq_self_iff]
    intro long space
    have first : trim t <+: t.dropWhile blank := List.rdropWhile_prefix blank (t.dropWhile blank)
    have longer := long.trans_le first.length_le
    have same : (t.dropWhile blank)[0] = (trim t)[0] := (first.getElem long).symm
    exact List.dropWhile_get_zero_not blank t longer (by rw [List.get_eq_getElem, same]; exact space)
  rw [trim, front]
  exact congrArg List.reverse (by rw [trim, List.reverse_reverse, List.dropWhile_idempotent])

theorem IsValue.of_trim (inside : ∀ c ∈ t, endsValue c = false) : IsValue (trim t) :=
  ⟨trim_trim t, fun c member => inside c (mem_of_mem_trim member)⟩

theorem IsName.append (name : IsName t) (next : endsName c = false) : IsName (t ++ [c]) := by
  refine ⟨by simp, fun d member => ?_⟩
  rcases List.mem_append.mp member with old | new
  · exact name.2 d old
  · exact List.mem_singleton.mp new ▸ next

end

/-- All that was read so far can be part of a file, and the rest of it is on
its way. -/
structure Reader.Sound (r : Reader) : Prop where
  events : ∀ e ∈ r.events, e.Plain
  mode : match r.mode with
    | .idle | .comment => True
    | .name t | .named t => IsName t
    | .value key t => IsName key ∧ ∀ c ∈ t, endsValue c = false

section
variable {r r' : Reader} {c : Char} {t key : Text}

theorem Reader.Sound.extend (sound : r.Sound) {es : List Event} (plain : ∀ e ∈ es, e.Plain) :
    ∀ e ∈ r.events ++ es, e.Plain := by
  intro e member
  rcases List.mem_append.mp member with old | new
  · exact sound.events e old
  · exact plain e new

theorem Reader.Sound.afterName (sound : r.Sound) (name : IsName t) (next : r.afterName t c = some r') : r'.Sound := by
  unfold Reader.afterName at next
  split_ifs at next
  · cases next
    exact ⟨sound.extend (by simpa [plain_enter] using name), trivial⟩
  · cases next
    exact ⟨sound.events, name, by simp⟩
  · cases next
    exact ⟨sound.events, name⟩

theorem Reader.Sound.step (sound : r.Sound) (next : r.step c = some r') : r'.Sound := by
  obtain ⟨events, mode⟩ := r
  cases mode with
  | idle =>
    simp only [Reader.step] at next
    split_ifs at next with space note close mark
    · cases next; exact sound
    · cases next; exact ⟨sound.events, trivial⟩
    · cases next; exact ⟨sound.extend (by simp [plain_leave]), trivial⟩
    · cases next
      have first : endsName c = false := by simp_all [endsName, endsValue]
      exact ⟨sound.events, by simp, by simpa using first⟩
  | comment =>
    simp only [Reader.step, Option.some.injEq] at next
    split_ifs at next <;> cases next <;> exact ⟨sound.events, trivial⟩
  | name t =>
    simp only [Reader.step] at next
    split_ifs at next with ended
    · exact sound.afterName sound.mode next
    · cases next
      exact ⟨sound.events, IsName.append sound.mode (by simpa using ended)⟩
  | named t => exact sound.afterName sound.mode next
  | value key t =>
    obtain ⟨name, inside⟩ : IsName key ∧ ∀ c ∈ t, endsValue c = false := sound.mode
    have here : (Event.set key (trim t)).Plain := ⟨name, IsValue.of_trim inside⟩
    simp only [Reader.step] at next
    split_ifs at next with line note close
    · cases next; exact ⟨sound.extend (by simpa using here), trivial⟩
    · cases next; exact ⟨sound.extend (by simpa using here), trivial⟩
    · cases next; exact ⟨sound.extend (by simpa [plain_leave] using here), trivial⟩
    · cases next
      refine ⟨sound.events, name, fun d member => ?_⟩
      rcases List.mem_append.mp member with old | new
      · exact inside d old
      · rw [List.mem_singleton.mp new]
        simp [endsValue, line, note, close]

theorem Reader.read_append (r : Reader) (a b : Text) : r.read (a ++ b) = (r.read a).bind fun r' => r'.read b :=
  List.foldlM_append

theorem Reader.read_cons (next : r.step c = some r') (t : Text) : r.read (c :: t) = r'.read t := by
  rw [Reader.read, List.foldlM_cons, next]
  rfl

theorem Reader.Sound.read (sound : r.Sound) (next : r.read t = some r') : r'.Sound := by
  induction t generalizing r with
  | nil =>
    cases next
    exact sound
  | cons c t ih =>
    rw [Reader.read, List.foldlM_cons] at next
    obtain ⟨middle, first, rest⟩ := Option.bind_eq_some_iff.mp next
    exact ih (sound.step first) rest

/-- Whatever the text, what is read from it has the form of names and values. -/
theorem plain_of_parse {es : List Event} (read : parse t = some es) : ∀ e ∈ es, e.Plain := by
  obtain ⟨r, done, finished⟩ := Option.bind_eq_some_iff.mp (Option.filter_eq_some_iff.mp read).1
  have start : Reader.Sound {} := ⟨by simp, trivial⟩
  have sound := start.read done
  obtain ⟨events, mode⟩ := r
  cases mode with
  | idle | comment =>
    cases finished
    exact sound.events
  | name t | named t => cases finished
  | value key t =>
    obtain ⟨name, inside⟩ : IsName key ∧ ∀ c ∈ t, endsValue c = false := sound.mode
    cases finished
    exact sound.extend (by simpa [plain_set] using And.intro name (IsValue.of_trim inside))

end

section
variable {done : List Event} {indent t key : Text}

theorem read_indent (blanks : ∀ c ∈ indent, blank c = true) (rest : Text) :
    (⟨done, .idle⟩ : Reader).read (indent ++ rest) = (⟨done, .idle⟩ : Reader).read rest := by
  induction indent with
  | nil => rfl
  | cons c indent ih =>
    have space := blanks c List.mem_cons_self
    have step : (⟨done, .idle⟩ : Reader).step c = some ⟨done, .idle⟩ := by simp [Reader.step, space]
    rw [List.cons_append, Reader.read_cons step, ih fun d inside => blanks d (List.mem_cons_of_mem c inside)]

theorem read_within_name {s : Text} (inside : ∀ c ∈ s, endsName c = false) (rest : Text) :
    (⟨done, .name t⟩ : Reader).read (s ++ rest) = (⟨done, .name (t ++ s)⟩ : Reader).read rest := by
  induction s generalizing t with
  | nil => rw [List.append_nil]; rfl
  | cons c s ih =>
    have next := inside c List.mem_cons_self
    rw [List.cons_append, Reader.read_cons (by simp only [Reader.step, next]; rfl),
      ih fun d member => inside d (List.mem_cons_of_mem c member), List.append_assoc, List.singleton_append]

theorem read_name (name : IsName t) (rest : Text) :
    (⟨done, .idle⟩ : Reader).read (t ++ rest) = (⟨done, .name t⟩ : Reader).read rest := by
  obtain ⟨some', inside⟩ := name
  cases t with
  | nil => exact absurd rfl some'
  | cons c t =>
    have first := inside c List.mem_cons_self
    have start : (⟨done, .idle⟩ : Reader).step c = some ⟨done, .name [c]⟩ := by
      simp_all [Reader.step, endsName, endsValue]
    rw [List.cons_append, Reader.read_cons start, read_within_name fun d member => inside d (List.mem_cons_of_mem c member)]
    rfl

theorem read_within_value {s : Text} (inside : ∀ c ∈ s, endsValue c = false) (rest : Text) :
    (⟨done, .value key t⟩ : Reader).read (s ++ rest) = (⟨done, .value key (t ++ s)⟩ : Reader).read rest := by
  induction s generalizing t with
  | nil => rw [List.append_nil]; rfl
  | cons c s ih =>
    have next := inside c List.mem_cons_self
    have step : (⟨done, .value key t⟩ : Reader).step c = some ⟨done, .value key (t ++ [c])⟩ := by
      simp_all [Reader.step, endsValue]
    rw [List.cons_append, Reader.read_cons step, ih fun d member => inside d (List.mem_cons_of_mem c member),
      List.append_assoc, List.singleton_append]

theorem read_line (blanks : ∀ c ∈ indent, blank c = true) {e : Event} (plain : e.Plain) :
    (⟨done, .idle⟩ : Reader).read (e.line indent) = some ⟨done ++ [e], .idle⟩ := by
  cases e with
  | enter name =>
    rw [Event.line, List.append_assoc, read_indent blanks, read_name plain]
    rfl
  | set key value =>
    obtain ⟨name, trimmed, inside⟩ := plain
    have spaced : ∀ c ∈ ' ' :: value, endsValue c = false := by
      intro c member
      rcases List.mem_cons.mp member with rfl | member
      · rfl
      · exact inside c member
    have shape : (Event.set key value).line indent = indent ++ (key ++ (" =".toList ++ (' ' :: value ++ ['\n']))) := by
      simp [Event.line]
    have toValue : (⟨done, .name key⟩ : Reader).read (" =".toList ++ (' ' :: value ++ ['\n'])) =
        (⟨done, .value key []⟩ : Reader).read (' ' :: value ++ ['\n']) := rfl
    rw [shape, read_indent blanks, read_name name, toValue, read_within_value spaced, List.nil_append]
    have ended : trim (' ' :: value) = value := by rw [trim_cons_blank rfl, trimmed]
    simp [Reader.read, Reader.step, ended]
  | leave =>
    rw [Event.line, read_indent blanks]
    rfl

theorem read_write {lines : List (Text × Event)} (blanks : ∀ l ∈ lines, ∀ c ∈ l.1, blank c = true)
    (plain : ∀ l ∈ lines, l.2.Plain) :
    (⟨done, .idle⟩ : Reader).read (write lines) = some ⟨done ++ lines.map Prod.snd, .idle⟩ := by
  induction lines generalizing done with
  | nil => rw [List.map_nil, List.append_nil]; rfl
  | cons l lines ih =>
    rw [write, List.flatMap_cons, Reader.read_append,
      read_line (blanks l List.mem_cons_self) (plain l List.mem_cons_self), Option.bind_some, ← write,
      ih (fun m inside => blanks m (List.mem_cons_of_mem l inside)) fun m inside => plain m (List.mem_cons_of_mem l inside)]
    simp

/-- What is written is read back if it has the form of names and values, and
only then. -/
theorem parse_write_iff {lines : List (Text × Event)} (blanks : ∀ l ∈ lines, ∀ c ∈ l.1, blank c = true)
    (closed : nested 0 (lines.map Prod.snd) = true) :
    parse (write lines) = some (lines.map Prod.snd) ↔ ∀ l ∈ lines, l.2.Plain := by
  constructor
  · intro read l inside
    exact plain_of_parse read l.2 (List.mem_map_of_mem inside)
  · intro plain
    rw [parse, read_write blanks plain, Option.bind_some]
    exact Option.filter_eq_some_iff.mpr ⟨rfl, closed⟩

theorem parse_comment {note : Text} (single : '\n' ∉ note) (rest : Text) :
    parse ('#' :: note ++ '\n' :: rest) = parse rest := by
  have passed : ∀ (note : Text), '\n' ∉ note →
      (⟨[], .comment⟩ : Reader).read (note ++ '\n' :: rest) = (⟨[], .idle⟩ : Reader).read rest := by
    intro note single
    induction note with
    | nil => rfl
    | cons c note ih =>
      rw [List.mem_cons, not_or] at single
      have step : (⟨[], .comment⟩ : Reader).step c = some ⟨[], .comment⟩ := by
        simp only [Reader.step, if_neg (Ne.symm single.1)]
      rw [List.cons_append, Reader.read_cons step, ih single.2]
  have same : Reader.read {} ('#' :: note ++ '\n' :: rest) = Reader.read {} rest := passed note single
  rw [parse, same, parse]

end

/-- All sections that are entered are left again. -/
def Closed (es : List Event) : Prop := ∀ depth rest, nested depth (es ++ rest) = nested depth rest

section
variable {name key value : Text} {es fs : List Event}

theorem Closed.nil : Closed [] := fun _ _ => rfl

theorem Closed.set (closed : Closed es) : Closed (.set key value :: es) := by
  intro depth rest
  rw [List.cons_append, nested]
  exact closed depth rest

theorem Closed.append (first : Closed es) (second : Closed fs) : Closed (es ++ fs) := by
  intro depth rest
  rw [List.append_assoc, first, second]

theorem Closed.within (closed : Closed es) : Closed (within name es) := by
  intro depth rest
  have shape : Sections.within name es ++ rest = .enter name :: (es ++ .leave :: rest) := by simp [Sections.within]
  rw [shape, nested, closed, nested]

theorem Closed.flatMap {α : Type} {f : α → List Event} (each : ∀ a, Closed (f a)) (as : List α) : Closed (as.flatMap f) := by
  induction as with
  | nil => exact Closed.nil
  | cons a as ih => exact (each a).append ih

theorem Closed.nested (closed : Closed es) : nested 0 es = true := by
  rw [← List.append_nil es, closed]
  rfl

theorem forall_mem_within {P : Event → Prop} :
    (∀ e ∈ within name es, P e) ↔ P (.enter name) ∧ (∀ e ∈ es, P e) ∧ P .leave := by
  simp only [within, List.cons_append, List.forall_mem_cons, List.forall_mem_append, List.not_mem_nil, false_imp_iff,
    implies_true, and_true]

theorem IsName.isValue {t : Text} (name : IsName t) : IsValue t := by
  have solid : ∀ c ∈ t, blank c = false := by
    intro c member
    have other := name.2 c member
    simp only [endsName, Bool.or_eq_false_iff] at other
    exact other.1.1.1
  refine ⟨trim_eq_self (fun c first => solid c (List.mem_of_mem_head? first)) fun c last => solid c (List.mem_of_getLast? last),
    fun c member => ?_⟩
  have other := name.2 c member
  simp only [endsName, Bool.or_eq_false_iff] at other
  exact other.1.1.2

end

end Sections
