import Mathlib.Data.List.TakeWhile
import Protean.Text

/- Texts cut at a separator and trimmed of space, as `strings.Cut`,
`strings.LastIndex` and `strings.TrimSpace` do it. -/
namespace Text

section
variable {sep : Char} {t a b : Text}

/-- `strings.Cut` at one character. -/
def cut (sep : Char) (t : Text) : Option (Text × Text) :=
  match t.dropWhile (· ≠ sep) with
  | [] => none
  | _ :: rest => some (t.takeWhile (· ≠ sep), rest)

/-- The same at the last occurrence. -/
def cutLast (sep : Char) (t : Text) : Option (Text × Text) :=
  (cut sep t.reverse).map fun parts => (parts.2.reverse, parts.1.reverse)

theorem not_mem_takeWhile (sep : Char) (t : Text) : sep ∉ t.takeWhile (· ≠ sep) := by
  intro member
  simpa using List.mem_takeWhile_imp member

theorem ne_sep_of_not_mem (fresh : sep ∉ a) : ∀ c ∈ a, decide (c ≠ sep) = true := by
  intro c member
  exact decide_eq_true fun same => fresh (same ▸ member)

theorem takeWhile_append_cons (a b : Text) : (a ++ sep :: b).takeWhile (· ≠ sep) = a.takeWhile (· ≠ sep) := by
  induction a with
  | nil => simp
  | cons c a ih =>
    rw [List.cons_append, List.takeWhile_cons, List.takeWhile_cons, ih]

theorem takeWhile_append_sep (fresh : sep ∉ a) : (a ++ sep :: b).takeWhile (· ≠ sep) = a := by
  rw [takeWhile_append_cons, List.takeWhile_eq_self_iff.mpr (ne_sep_of_not_mem fresh)]

theorem dropWhile_append_sep (fresh : sep ∉ a) : (a ++ sep :: b).dropWhile (· ≠ sep) = sep :: b := by
  rw [List.dropWhile_append_of_pos (ne_sep_of_not_mem fresh), List.dropWhile_cons_of_neg (by simp)]

theorem cut_eq_some_iff : cut sep t = some (a, b) ↔ t = a ++ sep :: b ∧ sep ∉ a := by
  constructor
  · intro found
    unfold cut at found
    split at found
    · cases found
    · rename_i c rest tail
      obtain ⟨rfl, rfl⟩ := Prod.mk.inj (Option.some.inj found)
      have here : c = sep := by
        have head := List.head?_dropWhile_not (fun c => decide (c ≠ sep)) t
        rw [tail] at head
        simpa using head
      have whole := List.takeWhile_append_dropWhile (p := fun c => decide (c ≠ sep)) (l := t)
      rw [tail, here] at whole
      exact ⟨whole.symm, not_mem_takeWhile sep t⟩
  · rintro ⟨rfl, fresh⟩
    rw [cut, dropWhile_append_sep fresh, takeWhile_append_sep fresh]

/-- A text has one first separator. -/
theorem append_sep_inj {a' b' : Text} (same : a ++ sep :: b = a' ++ sep :: b') (fresh : sep ∉ a) (fresh' : sep ∉ a') :
    a = a' ∧ b = b' := by
  have left : cut sep (a ++ sep :: b) = some (a, b) := cut_eq_some_iff.mpr ⟨rfl, fresh⟩
  rw [same, cut_eq_some_iff.mpr ⟨rfl, fresh'⟩] at left
  obtain ⟨rfl, rfl⟩ := Prod.mk.inj (Option.some.inj left)
  exact ⟨rfl, rfl⟩

theorem cut_eq_none_iff : cut sep t = none ↔ sep ∉ t := by
  constructor
  · intro absent member
    obtain ⟨a, b, rfl, fresh⟩ := List.eq_append_cons_of_mem member
    rw [cut_eq_some_iff.mpr ⟨rfl, fresh⟩] at absent
    cases absent
  · intro fresh
    cases found : cut sep t with
    | none => rfl
    | some parts =>
      obtain ⟨whole, _⟩ := cut_eq_some_iff.mp found
      exact absurd (by rw [whole]; simp) fresh

theorem cutLast_eq_some_iff : cutLast sep t = some (a, b) ↔ t = a ++ sep :: b ∧ sep ∉ b := by
  rw [cutLast, Option.map_eq_some_iff]
  constructor
  · rintro ⟨⟨b', a'⟩, found, same⟩
    obtain ⟨rfl, rfl⟩ := Prod.mk.inj same
    obtain ⟨whole, fresh⟩ := cut_eq_some_iff.mp found
    refine ⟨?_, by simpa using fresh⟩
    rw [← List.reverse_reverse t, whole]
    simp
  · rintro ⟨rfl, fresh⟩
    exact ⟨(b.reverse, a.reverse), cut_eq_some_iff.mpr ⟨by simp, by simpa using fresh⟩, by simp⟩

theorem splitOn_eq_iff {parts : List Text} (some : parts ≠ []) :
    t.splitOn sep = parts ↔ t = [sep].intercalate parts ∧ ∀ part ∈ parts, sep ∉ part := by
  constructor
  · rintro rfl
    exact ⟨(List.intercalate_splitOn sep).symm, fun part member => not_mem_of_mem_splitOn member⟩
  · rintro ⟨rfl, fresh⟩
    exact List.splitOn_intercalate sep fresh some

/-- `strings.CutPrefix`. -/
def cutPrefix (start t : Text) : Option Text := if start.isPrefixOf t then some (t.drop start.length) else none

theorem cutPrefix_eq_some_iff {start : Text} : cutPrefix start t = some a ↔ t = start ++ a := by
  unfold cutPrefix
  split
  · rename_i found
    obtain ⟨rest, rfl⟩ := List.isPrefixOf_iff_prefix.mp found
    simp
  · rename_i absent
    refine ⟨fun none => (by cases none), ?_⟩
    rintro rfl
    exact absurd (List.isPrefixOf_iff_prefix.mpr (List.prefix_append _ _)) absent

theorem cutPrefix_append (start rest : Text) : cutPrefix start (start ++ rest) = some rest :=
  cutPrefix_eq_some_iff.mpr rfl

theorem headD_splitOn (sep : Char) (t : Text) : (t.splitOn sep).headD [] = t.takeWhile (· ≠ sep) := by
  cases found : cut sep t with
  | none =>
    have fresh := cut_eq_none_iff.mp found
    rw [List.splitOn_eq_singleton fresh, List.headD_cons]
    exact (List.takeWhile_eq_self_iff.mpr (ne_sep_of_not_mem fresh)).symm
  | some parts =>
    obtain ⟨whole, fresh⟩ := cut_eq_some_iff.mp found
    rw [whole, List.splitOn_append_cons_self_of_not_mem fresh, List.headD_cons, takeWhile_append_sep fresh]

end

section
variable {t l r : Text}

/-- Space on either side does not matter. -/
theorem trimSpace_append (before : ∀ c ∈ l, isSpace c = true) (after : ∀ c ∈ r, isSpace c = true) (t : Text) :
    trimSpace (l ++ (t ++ r)) = trimSpace t := by
  unfold trimSpace
  rw [List.dropWhile_append_of_pos before, List.dropWhile_append]
  split
  · rename_i blank
    have none : r.dropWhile isSpace = [] := List.dropWhile_eq_nil_iff.mpr after
    rw [none, List.isEmpty_iff.mp blank]
  · rw [List.reverse_append, List.dropWhile_append_of_pos fun c member => after c (List.mem_reverse.mp member)]

/-- Neither end is a space. -/
structure Trimmed (t : Text) : Prop where
  head : ∀ c ∈ t.head?, isSpace c = false
  last : ∀ c ∈ t.getLast?, isSpace c = false

theorem dropWhile_space_of_head (head : ∀ c ∈ t.head?, isSpace c = false) : t.dropWhile isSpace = t := by
  cases t with
  | nil => rfl
  | cons c t => exact List.dropWhile_cons_of_neg (by simp [head c rfl])

theorem Trimmed.trimSpace_eq (trimmed : Trimmed t) : trimSpace t = t := by
  unfold trimSpace
  rw [dropWhile_space_of_head trimmed.head,
    dropWhile_space_of_head fun c last => trimmed.last c (by rwa [List.head?_reverse] at last), List.reverse_reverse]

theorem head_dropWhile_space : ∀ c ∈ (t.dropWhile isSpace).head?, isSpace c = false := by
  intro c head
  have first := List.head?_dropWhile_not isSpace t
  rw [head] at first
  simpa using first

theorem trimmed_trimSpace (t : Text) : Trimmed (trimSpace t) := by
  constructor
  · intro c head
    -- the end that is trimmed second leaves the other end, or nothing
    cases shape : trimSpace t with
    | nil =>
      rw [shape] at head
      cases head
    | cons d rest =>
      have ends : ∃ spaces, t.dropWhile isSpace = trimSpace t ++ spaces := by
        obtain ⟨spaces, split⟩ := List.dropWhile_suffix (l := (t.dropWhile isSpace).reverse) isSpace
        refine ⟨spaces.reverse, ?_⟩
        rw [trimSpace, ← List.reverse_append, split, List.reverse_reverse]
      obtain ⟨spaces, split⟩ := ends
      refine head_dropWhile_space (t := t) c ?_
      rw [split, shape]
      rw [shape] at head
      exact head
  · intro c last
    rw [trimSpace, List.getLast?_reverse] at last
    exact head_dropWhile_space c last

theorem trimmed_of_no_space (none : ∀ c ∈ t, isSpace c = false) : Trimmed t :=
  ⟨fun c head => none c (List.mem_of_mem_head? head), fun c last => none c (List.mem_of_mem_getLast? last)⟩

/-- Only the end. -/
def trimRight (t : Text) : Text := (t.reverse.dropWhile isSpace).reverse

theorem dropWhile_append_solid {c : Char} (solid : isSpace c = false) (a b : Text) :
    (a ++ c :: b).dropWhile isSpace = a.dropWhile isSpace ++ c :: b := by
  rw [List.dropWhile_append]
  split
  · rename_i blank
    rw [List.isEmpty_iff.mp blank, List.dropWhile_cons_of_neg (by simp [solid]), List.nil_append]
  · rfl

/-- Around a character that is not space each end is trimmed by itself. -/
theorem trimSpace_append_cons {c : Char} (solid : isSpace c = false) (a b : Text) :
    trimSpace (a ++ c :: b) = a.dropWhile isSpace ++ c :: trimRight b := by
  rw [trimSpace, dropWhile_append_solid solid, List.reverse_append, List.reverse_cons, List.append_assoc,
    List.singleton_append, dropWhile_append_solid solid, trimRight]
  simp

theorem trimSpace_dropWhile (t : Text) : trimSpace (t.dropWhile isSpace) = trimSpace t := by
  have spaces : ∀ c ∈ t.takeWhile isSpace, isSpace c = true := fun c member => List.mem_takeWhile_imp member
  have both := trimSpace_append spaces (r := []) (fun c none => by cases none) (t.dropWhile isSpace)
  rwa [List.append_nil, List.takeWhile_append_dropWhile, eq_comm] at both

theorem trimSpace_trimRight (t : Text) : trimSpace (trimRight t) = trimSpace t := by
  have spaces : ∀ c ∈ (t.reverse.takeWhile isSpace).reverse, isSpace c = true := fun c member =>
    List.mem_takeWhile_imp (List.mem_reverse.mp member)
  have whole : trimRight t ++ (t.reverse.takeWhile isSpace).reverse = t := by
    rw [trimRight, ← List.reverse_append, List.takeWhile_append_dropWhile, List.reverse_reverse]
  have both := trimSpace_append (l := []) (fun c none => by cases none) spaces (trimRight t)
  rwa [List.nil_append, whole, eq_comm] at both

theorem trimSpace_cons_space (t : Text) : trimSpace (' ' :: t) = trimSpace t := by
  rw [← trimSpace_dropWhile, List.dropWhile_cons_of_pos (by decide), trimSpace_dropWhile]

theorem trimSpace_concat_space (t : Text) : trimSpace (t ++ [' ']) = trimSpace t := by
  have both := trimSpace_append (l := []) (r := [' ']) (fun c none => by cases none) (by decide) t
  rwa [List.nil_append] at both

theorem Trimmed.of_trimSpace_eq (same : trimSpace t = t) : Trimmed t := same ▸ trimmed_trimSpace t

theorem mem_of_mem_trimSpace {c : Char} (member : c ∈ trimSpace t) : c ∈ t := by
  rw [trimSpace, List.mem_reverse] at member
  exact (List.dropWhile_sublist _).subset (List.mem_reverse.mp ((List.dropWhile_sublist _).subset member))

/-- The ends of a text are those of its first and last part. -/
theorem Trimmed.append {a m b : Text} (first : Trimmed a) (some : a ≠ []) (last : Trimmed b) (some' : b ≠ []) :
    Trimmed (a ++ (m ++ b)) := by
  constructor
  · intro c head
    rw [List.head?_append_of_ne_nil _ some] at head
    exact first.head c head
  · intro c tail
    rw [← List.append_assoc, List.getLast?_append_of_ne_nil _ some'] at tail
    exact last.last c tail

theorem Trimmed.intercalate (m : Text) {parts : List Text} (some : parts ≠ [])
    (all : ∀ part ∈ parts, part ≠ [] ∧ Trimmed part) : Trimmed (m.intercalate parts) ∧ m.intercalate parts ≠ [] := by
  induction parts with
  | nil => exact absurd rfl some
  | cons part parts ih =>
    rw [List.forall_mem_cons] at all
    cases parts with
    | nil => simpa [List.intercalate] using all.1.symm
    | cons next parts =>
      obtain ⟨rest, filled⟩ := ih (by simp) all.2
      rw [List.intercalate_cons_of_ne_nil (by simp)]
      exact ⟨by simpa using all.1.2.append all.1.1 (m := m) rest filled, by simp [all.1.1]⟩

/-- The space after a separator may as well belong to the next part. -/
theorem intercalate_space (sep : Char) (first : Text) (rest : List Text) :
    [sep, ' '].intercalate (first :: rest) = [sep].intercalate (first :: rest.map (' ' :: ·)) := by
  induction rest generalizing first with
  | nil => simp [List.intercalate]
  | cons next rest ih =>
    have space : ∀ parts : List Text, [sep].intercalate ((' ' :: next) :: parts) =
        ' ' :: [sep].intercalate (next :: parts) := by
      intro parts
      cases parts <;> simp [List.intercalate]
    rw [List.map_cons, List.intercalate_cons_cons, List.intercalate_cons_cons, ih, space]
    simp

/-- A list joined by a separator and a space comes back by splitting and trimming. -/
theorem map_trimSpace_splitOn_intercalate {sep : Char} {parts : List Text} (some : parts ≠ [])
    (fresh : ∀ part ∈ parts, sep ∉ part) (space : sep ≠ ' ') (trimmed : ∀ part ∈ parts, trimSpace part = part) :
    (([sep, ' '].intercalate parts).splitOn sep).map trimSpace = parts := by
  cases parts with
  | nil => exact absurd rfl some
  | cons first rest =>
    rw [List.forall_mem_cons] at fresh trimmed
    have spaced : ∀ part ∈ rest.map (' ' :: ·), sep ∉ part := by
      intro part member
      obtain ⟨part, listed, rfl⟩ := List.mem_map.mp member
      simp [space, fresh.2 part listed]
    have split : ([sep].intercalate (first :: rest.map (' ' :: ·))).splitOn sep = first :: rest.map (' ' :: ·) :=
      (splitOn_eq_iff (by simp)).mpr ⟨rfl, List.forall_mem_cons.mpr ⟨fresh.1, spaced⟩⟩
    rw [intercalate_space, split, List.map_cons, List.map_map, trimmed.1]
    refine congrArg (first :: ·) ((List.map_congr_left fun part listed => ?_).trans (List.map_id rest))
    exact (trimSpace_cons_space part).trans (trimmed.2 part listed)

end

end Text
