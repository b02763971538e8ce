import Mathlib.Algebra.Order.Ring.Int
import Mathlib.Data.List.Forall2

/-- Every text of the panel and of the host is handled as its characters. -/
abbrev Text := List Char

instance Text.lawfulBEq : LawfulBEq Text := inferInstance

-- characters are finitely many, but a quantifier over a text is to be decided by going through the text
instance (priority := 2000) Text.decidableForall {p : Char → Prop} [DecidablePred p] (t : Text) :
    Decidable (∀ c ∈ t, p c) :=
  List.decidableBAll p t

/-- A list is read when each of its entries is. -/
theorem List.mapM_option_eq_some {α β : Type} {f : α → Option β} {xs : List α} {ys : List β} :
    xs.mapM f = some ys ↔ List.Forall₂ (fun x y => f x = some y) xs ys := by
  induction xs generalizing ys with
  | nil => cases ys <;> simp
  | cons x xs ih =>
    rw [List.mapM_cons]
    cases head : f x with
    | none => cases ys <;> simp [head]
    | some y =>
      cases ys with
      | nil => cases tail : xs.mapM f <;> simp
      | cons z zs =>
        rw [List.forall₂_cons, ← ih]
        cases tail : xs.mapM f <;> simp [head]

theorem List.exists_of_mapM_option {α β : Type} {f : α → Option β} {xs : List α} {ys : List β}
    (read : xs.mapM f = some ys) {x : α} (member : x ∈ xs) : ∃ y, f x = some y := by
  induction List.mapM_option_eq_some.mp read with
  | nil => cases member
  | cons head tail ih =>
    rcases List.mem_cons.mp member with rfl | later
    · exact ⟨_, head⟩
    · exact ih (List.mapM_option_eq_some.mpr tail) later

theorem List.mem_mapM_option_iff {α β : Type} {f : α → Option β} {xs : List α} {ys : List β}
    (read : xs.mapM f = some ys) {y : β} : y ∈ ys ↔ ∃ x ∈ xs, f x = some y := by
  induction List.mapM_option_eq_some.mp read with
  | nil => simp
  | cons head tail ih =>
    rw [List.mem_cons, ih (List.mapM_option_eq_some.mpr tail), List.exists_mem_cons_iff, head, Option.some_inj, eq_comm]

theorem List.eq_map_of_mapM_option {α β : Type} {f : α → Option β} {xs : List α} {ys : List β}
    (read : xs.mapM f = some ys) (d : β) : ys = xs.map fun x => (f x).getD d := by
  induction List.mapM_option_eq_some.mp read with
  | nil => rfl
  | cons head tail ih =>
    rw [List.map_cons, head, ← ih (List.mapM_option_eq_some.mpr tail)]
    rfl

theorem List.exists_map_some {α β : Type} {f : α → Option β} {xs : List α} (all : ∀ x ∈ xs, (f x).isSome) :
    ∃ ys : List β, xs.map f = ys.map some := by
  induction xs with
  | nil => exact ⟨[], rfl⟩
  | cons x xs ih =>
    rw [List.forall_mem_cons] at all
    obtain ⟨y, head⟩ := Option.isSome_iff_exists.mp all.1
    obtain ⟨ys, tail⟩ := ih all.2
    exact ⟨y :: ys, by rw [List.map_cons, List.map_cons, head, tail]⟩

theorem List.mem_intersperse_of_mem {α : Type} {sep x : α} {xs : List α} (member : x ∈ xs) :
    x ∈ xs.intersperse sep := by
  induction xs with
  | nil => cases member
  | cons y ys ih =>
    cases ys with
    | nil => exact member
    | cons z zs =>
      rcases List.mem_cons.mp member with rfl | later
      · exact List.mem_cons_self ..
      · exact List.mem_cons_of_mem _ (List.mem_cons_of_mem _ (ih later))

/-- Erasing every entry of one kind, one after the other, leaves the others in order. -/
theorem List.foldl_erase_filter {α : Type} [DecidableEq α] (p : α → Bool) (l : List α) :
    (l.filter p).foldl List.erase l = l.filter fun a => !p a := by
  have skip : ∀ (xs l : List α) (a : α), a ∉ xs → xs.foldl List.erase (a :: l) = a :: xs.foldl List.erase l := by
    intro xs
    induction xs with
    | nil => intro l a _; rfl
    | cons x xs ih =>
      intro l a absent
      rw [List.mem_cons, not_or] at absent
      rw [List.foldl_cons, List.erase_cons_tail (by simpa using absent.1), ih _ _ absent.2, List.foldl_cons]
  induction l with
  | nil => rfl
  | cons a l ih =>
    by_cases holds : p a = true
    · rw [List.filter_cons_of_pos holds, List.foldl_cons, List.erase_cons_head, ih]
      simp [holds]
    · rw [List.filter_cons_of_neg holds, skip _ _ _ (by simp [holds]), ih]
      simp [holds]

namespace Text

/-- Canonical decimal digits, without leading zeros. -/
def decimal (n : Nat) : Text := Nat.toDigits 10 n

/-- A nonempty run of decimal digits. Leading zeros are read as digits. -/
def readDecimal (t : Text) : Option Nat :=
  if t ≠ [] ∧ t.all Char.isDigit then some (Nat.ofDigitChars 10 t 0) else none

theorem decimal_ne_nil (n : Nat) : decimal n ≠ [] := Nat.toDigits_ne_nil

variable {n : Nat} {c : Char}

theorem isDigit_of_mem_decimal (member : c ∈ decimal n) : c.isDigit :=
  Nat.isDigit_of_mem_toDigits (by decide) (by decide) member

theorem decimal_length_le_iff {k : Nat} (positive : 0 < k) : (decimal n).length ≤ k ↔ n < 10 ^ k :=
  Nat.length_toDigits_le_iff (by decide) positive

theorem readDecimal_decimal (n : Nat) : readDecimal (decimal n) = some n := by
  have digits : (decimal n).all Char.isDigit := by
    rw [List.all_eq_true]
    exact fun c member => isDigit_of_mem_decimal member
  rw [readDecimal, if_pos ⟨decimal_ne_nil n, digits⟩, decimal, Nat.ofDigitChars_ten_toDigits]

/-- A number written in decimal without leading zeros. -/
def readCanonical (t : Text) : Option Nat := (readDecimal t).filter fun n => decimal n = t

variable {t : Text}

theorem readCanonical_eq_some : readCanonical t = some n ↔ t = decimal n := by
  constructor
  · intro read
    rw [readCanonical, Option.filter_eq_some_iff] at read
    exact (of_decide_eq_true read.2).symm
  · rintro rfl
    simp [readCanonical, readDecimal_decimal]

theorem decimal_injective : Function.Injective decimal := by
  intro m n same
  have read := congrArg readDecimal same
  rw [readDecimal_decimal, readDecimal_decimal] at read
  exact Option.some.inj read

theorem readDecimal_isDigit (read : readDecimal t = some n) : t ≠ [] ∧ ∀ c ∈ t, c.isDigit := by
  unfold readDecimal at read
  split at read
  · rename_i shape
    exact ⟨shape.1, List.all_eq_true.mp shape.2⟩
  · simp at read

/-- A positive number never starts with a zero digit, so a reader that takes
a leading zero as a base marker still reads canonical digits as decimal. -/
theorem decimal_head_ne_zero (positive : 0 < n) {rest : Text} (shape : decimal n = c :: rest) : c ≠ '0' := by
  induction n using Nat.strongRecOn generalizing rest with
  | ind n ih =>
    by_cases small : n < 10
    · rw [decimal, Nat.toDigits_of_lt_base small] at shape
      obtain ⟨rfl, -⟩ := List.cons.inj shape
      intro zero
      have value := congrArg Char.toNat zero
      rw [Nat.toNat_digitChar_of_lt_ten small] at value
      simp at value
      omega
    · have large : 10 ≤ n := by omega
      rw [decimal, Nat.toDigits_of_base_le (by decide) large] at shape
      cases high : Nat.toDigits 10 (n / 10) with
      | nil => exact absurd high Nat.toDigits_ne_nil
      | cons d ds =>
        rw [high, List.cons_append] at shape
        obtain ⟨rfl, -⟩ := List.cons.inj shape
        exact ih (n / 10) (by omega) (by omega) high

/-- `strtoul` with base 0, as the packet filter reads its numbers: `0x` marks
hexadecimal, another leading zero marks octal. -/
def readNumber : Text → Option Nat
  | '0' :: 'x' :: rest => readHex rest
  | '0' :: 'X' :: rest => readHex rest
  | '0' :: c :: rest =>
    if (c :: rest).all (fun d => '0' ≤ d && d ≤ '7') then
      some (Nat.ofDigitChars 8 (c :: rest) 0) else none
  | t => readDecimal t
where
  hexValue (c : Char) : Option Nat :=
    if c.isDigit then some (c.toNat - '0'.toNat)
    else if 'a' ≤ c && c ≤ 'f' then some (c.toNat - 'a'.toNat + 10)
    else if 'A' ≤ c && c ≤ 'F' then some (c.toNat - 'A'.toNat + 10)
    else none
  readHex (t : Text) : Option Nat :=
    if t = [] then none
    else t.foldlM (fun acc c => (hexValue c).map (fun d => acc * 16 + d)) 0

theorem readNumber_decimal (n : Nat) : readNumber (decimal n) = some n := by
  have read := readDecimal_decimal n
  rcases Nat.eq_zero_or_pos n with rfl | positive
  · rfl
  · cases shape : decimal n with
    | nil => exact absurd shape (decimal_ne_nil n)
    | cons c rest =>
      have head := decimal_head_ne_zero positive shape
      rw [shape] at read
      unfold readNumber
      split <;> simp_all

/-- `strconv.Itoa`. -/
def itoa : Int → Text
  | .ofNat n => decimal n
  | .negSucc n => '-' :: decimal (n + 1)

/-- One optional sign, then digits. -/
def readSigned : Text → Option Int
  | '-' :: digits => (readDecimal digits).map fun n => -(n : Int)
  | '+' :: digits => (readDecimal digits).map Int.ofNat
  | digits => (readDecimal digits).map Int.ofNat

/-- `strconv.Atoi` on a 64-bit platform: an error outside the range of the
machine integer. -/
def atoi (t : Text) : Option Int := (readSigned t).filter fun v => -2 ^ 63 ≤ v ∧ v < 2 ^ 63

/-- The value that comes with such an error: zero for no number at all, the
nearest machine integer for one out of range. -/
def atoiValue (t : Text) : Int :=
  ((readSigned t).map fun v => max (-2 ^ 63) (min v (2 ^ 63 - 1))).getD 0

/-- A port is never one of the values that come with an error. -/
theorem atoi_of_atoiValue (positive : 0 < atoiValue t) (small : atoiValue t < 2 ^ 63 - 1) : atoi t = some (atoiValue t) := by
  unfold atoiValue at positive small
  unfold atoi atoiValue
  cases read : readSigned t with
  | none => simp [read] at positive
  | some v =>
    simp only [read, Option.map_some, Option.getD_some] at positive small ⊢
    have same : max (-2 ^ 63) (min v (2 ^ 63 - 1)) = v := by omega
    rw [same, Option.filter_eq_some_iff]
    exact ⟨rfl, by simp; omega⟩

/-- `unicode.IsSpace`. -/
def isSpace (c : Char) : Bool :=
  c ∈ ['\t', '\n', '\x0b', '\x0c', '\r', ' ', '\u0085', '\u00a0', '\u1680', '\u2028', '\u2029', '\u202f', '\u205f',
    '\u3000'] || ('\u2000' ≤ c && c ≤ '\u200a')

/-- `strings.TrimSpace`. -/
def trimSpace (t : Text) : Text := ((t.dropWhile isSpace).reverse.dropWhile isSpace).reverse

theorem readSigned_itoa (n : Int) : readSigned (itoa n) = some n := by
  cases n with
  | ofNat n =>
    have unsigned : readSigned (decimal n) = (readDecimal (decimal n)).map Int.ofNat := by
      have digit : ∀ c rest, decimal n = c :: rest → c.isDigit = true := fun c rest shape =>
        isDigit_of_mem_decimal (shape ▸ List.mem_cons_self ..)
      unfold readSigned
      split
      · exact absurd (digit _ _ ‹_›) (by decide)
      · exact absurd (digit _ _ ‹_›) (by decide)
      · rfl
    rw [itoa, unsigned, readDecimal_decimal]
    rfl
  | negSucc n =>
    rw [itoa, readSigned, readDecimal_decimal]
    rfl

theorem atoiValue_bounds (t : Text) : -2 ^ 63 ≤ atoiValue t ∧ atoiValue t ≤ 2 ^ 63 - 1 := by
  unfold atoiValue
  cases readSigned t with
  | none => simp
  | some v =>
    simp only [Option.map_some, Option.getD_some]
    omega

theorem atoiValue_itoa {n : Int} (low : -2 ^ 63 ≤ n) (high : n ≤ 2 ^ 63 - 1) : atoiValue (itoa n) = n := by
  unfold atoiValue
  rw [readSigned_itoa]
  simp only [Option.map_some, Option.getD_some]
  omega

theorem mem_of_readSigned {v : Int} (read : readSigned t = some v) (member : c ∈ t) : c.isDigit ∨ c = '-' ∨ c = '+' := by
  have digits : ∀ u : Text, readDecimal u ≠ none → c ∈ u → c.isDigit := by
    intro u accepted member
    obtain ⟨n, read⟩ := Option.ne_none_iff_exists'.mp accepted
    exact (readDecimal_isDigit read).2 c member
  unfold readSigned at read
  split at read
  · rename_i u
    rcases List.mem_cons.mp member with rfl | later
    · exact .inr (.inl rfl)
    · exact .inl (digits u (fun none => by simp [none] at read) later)
  · rename_i u
    rcases List.mem_cons.mp member with rfl | later
    · exact .inr (.inr rfl)
    · exact .inl (digits u (fun none => by simp [none] at read) later)
  · exact .inl (digits _ (fun none => by simp [none] at read) member)

theorem itoa_natCast (n : Nat) : itoa n = decimal n := rfl

theorem intercalate_merge {sep : Text} (a b : Text) (rest : List Text) :
    sep.intercalate ((a ++ (sep ++ b)) :: rest) = sep.intercalate (a :: b :: rest) := by
  cases rest with
  | nil | cons c rest => simp [List.intercalate]

variable {sep : Char}

theorem mem_intercalate (other : c ≠ sep) (parts : List Text) : c ∈ [sep].intercalate parts ↔ ∃ part ∈ parts, c ∈ part := by
  induction parts with
  | nil => simp [List.intercalate]
  | cons p parts ih =>
    cases parts with
    | nil => simp [List.intercalate]
    | cons q parts =>
      rw [List.intercalate_cons_of_ne_nil (by simp), List.mem_append, List.mem_append, ih]
      simp [other]

/-- Splitting loses nothing but the separators. -/
theorem mem_splitOn (other : c ≠ sep) (t : Text) : c ∈ t ↔ ∃ part ∈ t.splitOn sep, c ∈ part := by
  rw [← mem_intercalate other, List.intercalate_splitOn]

theorem not_mem_of_mem_splitOn {part : Text} (member : part ∈ t.splitOn sep) : sep ∉ part := by
  induction t generalizing part with
  | nil =>
    rw [List.splitOn_nil, List.mem_singleton] at member
    simp [member]
  | cons c t ih =>
    rw [List.splitOn_cons_eq_if_modifyHead] at member
    split at member
    · rcases List.mem_cons.mp member with rfl | later
      · simp
      · exact ih later
    · rename_i other
      have other : sep ≠ c := fun same => other (by simp [same])
      cases parts : t.splitOn sep with
      | nil => exact absurd parts (List.splitOn_ne_nil sep t)
      | cons p ps =>
        rw [parts] at member ih
        rcases List.mem_cons.mp member with rfl | later
        · simp [other, ih (List.mem_cons_self ..)]
        · exact ih (List.mem_cons_of_mem _ later)

/-- `strings.Split(text, "\n")`; also what a reader of lines sees, with the
unterminated rest as the last entry. -/
def lines (t : Text) : List Text := t.splitOn '\n'

def unlines (ls : List Text) : Text := (ls.map (· ++ ['\n'])).flatten

theorem unlines_cons (l : Text) (ls : List Text) : unlines (l :: ls) = l ++ '\n' :: unlines ls := by
  simp [unlines]

theorem unlines_append (ls ms : List Text) : unlines (ls ++ ms) = unlines ls ++ unlines ms := by
  simp [unlines]

variable {ls : List Text}

theorem unlines_eq_intercalate (some' : ls ≠ []) : unlines ls = ['\n'].intercalate ls ++ ['\n'] := by
  induction ls with
  | nil => exact absurd rfl some'
  | cons l ls ih =>
    cases ls with
    | nil => simp [unlines, List.intercalate]
    | cons m ls =>
      rw [unlines_cons, ih (List.cons_ne_nil m ls), List.intercalate_cons_of_ne_nil (List.cons_ne_nil m ls)]
      simp

theorem unlines_lines (t : Text) : unlines (lines t) = t ++ ['\n'] := by
  rw [lines, unlines_eq_intercalate (List.splitOn_ne_nil '\n' t), List.intercalate_splitOn]

theorem lines_append_newline {l : Text} (single : '\n' ∉ l) (rest : Text) :
    lines (l ++ '\n' :: rest) = l :: lines rest :=
  List.splitOn_append_cons_self_of_not_mem single rest

theorem lines_unlines_append (single : ∀ l ∈ ls, '\n' ∉ l) (rest : Text) : lines (unlines ls ++ rest) = ls ++ lines rest := by
  induction ls with
  | nil => rfl
  | cons l ls ih =>
    rw [unlines_cons, List.append_assoc, List.cons_append,
      lines_append_newline (single l (List.mem_cons_self ..)),
      ih (fun m member => single m (List.mem_cons_of_mem _ member))]
    rfl

theorem lines_unlines (single : ∀ l ∈ ls, '\n' ∉ l) : lines (unlines ls) = ls ++ [[]] := by
  have split := lines_unlines_append single []
  rwa [List.append_nil] at split

end Text
