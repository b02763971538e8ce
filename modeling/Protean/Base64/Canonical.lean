import Protean.Base64

/- Which texts `base64.StdEncoding` reads and would write itself. It reads more:
line breaks anywhere, and any bits behind the last byte. -/
namespace Base64

/-- The bits behind the last byte. -/
def spare : List Nat → Nat
  | [] => 0
  | [_] => 0
  | [_, b] => b % 16
  | [_, _, c] => c % 4
  | _ :: _ :: _ :: _ :: rest => spare rest

/-- The digits in front of the padding. -/
def digitsOf (t : Text) : List Nat := (t.takeWhile (· ≠ '=')).filterMap stdValue

/-- On one line, and with nothing but zeros behind the last byte. -/
def Canonical (t : Text) : Prop := ('\r' ∉ t ∧ '\n' ∉ t) ∧ spare (digitsOf t) = 0

instance (t : Text) : Decidable (Canonical t) := inferInstanceAs (Decidable (_ ∧ _))

theorem toNat_ofNat_of_lt {n : Nat} (small : n < 256) : (UInt8.ofNat n).toNat = n := by
  rw [UInt8.toNat_ofNat']
  exact Nat.mod_eq_of_lt small

/-- Digits are written back exactly if no bit of them was dropped. -/
theorem digits_bytes_iff {ds : List Nat} {bs : List UInt8} (small : ∀ d ∈ ds, d < 64) (read : bytes ds = some bs) :
    digits bs = ds ↔ spare ds = 0 := by
  fun_induction bytes ds generalizing bs with
  | case1 =>
    cases read
    exact iff_of_true rfl rfl
  | case2 => cases read
  | case3 a b =>
    cases read
    simp only [List.forall_mem_cons] at small
    rw [digits, spare, toNat_ofNat_of_lt (by omega)]
    simp only [List.cons.injEq, and_true]
    omega
  | case4 a b c =>
    cases read
    simp only [List.forall_mem_cons] at small
    rw [digits, spare, toNat_ofNat_of_lt (by omega), toNat_ofNat_of_lt (by omega)]
    simp only [List.cons.injEq, and_true]
    omega
  | case5 a b c d rest ih =>
    obtain ⟨tail, readRest, rfl⟩ := Option.map_eq_some_iff.mp read
    simp only [List.forall_mem_cons] at small
    obtain ⟨ha, hb, hc, hd, small⟩ := small
    rw [digits, spare, toNat_ofNat_of_lt (by omega), toNat_ofNat_of_lt (by omega), toNat_ofNat_of_lt (by omega),
      ← ih small readRest]
    simp only [List.cons.injEq]
    constructor
    · exact fun same => same.2.2.2.2
    · exact fun same => ⟨by omega, by omega, by omega, by omega, same⟩

theorem stdDigit_of_stdValue {c : Char} {n : Nat} (read : stdValue c = some n) : stdDigit n = c ∧ n < 64 := by
  obtain ⟨inside, same, _⟩ := List.findIdx?_eq_some_iff_getElem.mp read
  refine ⟨?_, inside⟩
  rw [stdDigit, List.getD_eq_getElem?_getD, List.getElem?_eq_getElem inside, Option.getD_some]
  exact of_decide_eq_true same

theorem mapM_stdValue {t : Text} {ds : List Nat} (read : t.mapM stdValue = some ds) :
    ds.map stdDigit = t ∧ t.filterMap stdValue = ds ∧ ∀ d ∈ ds, d < 64 := by
  rw [List.mapM_option_eq_some] at read
  induction read with
  | nil => exact ⟨rfl, rfl, nofun⟩
  | cons first _ ih =>
    obtain ⟨written, again, small⟩ := ih
    obtain ⟨digit, bound⟩ := stdDigit_of_stdValue first
    rw [List.map_cons, digit, written, List.filterMap_cons_some first, again]
    exact ⟨rfl, rfl, List.forall_mem_cons.mpr ⟨bound, small⟩⟩

/-- A text without line breaks is its digits and its padding. -/
theorem decodeStd_eq_some {t : Text} {raw : List UInt8} (line : '\r' ∉ t ∧ '\n' ∉ t) (read : decodeStd t = some raw) :
    ∃ k ≤ 2, t = (digitsOf t).map stdDigit ++ List.replicate k '=' ∧ t.length % 4 = 0 ∧
      bytes (digitsOf t) = some raw ∧ ∀ d ∈ digitsOf t, d < 64 := by
  rw [decodeStd, filter_line line] at read
  split at read
  · rename_i shape
    obtain ⟨whole, short, pads⟩ := shape
    obtain ⟨ds, digits, read⟩ := Option.bind_eq_some_iff.mp read
    obtain ⟨written, again, small⟩ := mapM_stdValue digits
    have pad : t.dropWhile (· ≠ '=') = List.replicate (t.dropWhile (· ≠ '=')).length '=' :=
      List.eq_replicate_iff.mpr ⟨rfl, fun c member => of_decide_eq_true (List.all_eq_true.mp pads c member)⟩
    have same : digitsOf t = ds := again
    rw [same, written]
    refine ⟨_, short, ?_, whole, read, small⟩
    rw [← pad, List.takeWhile_append_dropWhile]
  · cases read

theorem encodeStd_canonical (bs : List UInt8) : Canonical (encodeStd bs) := by
  have same : digitsOf (encodeStd bs) = digits bs := by
    rw [digitsOf, (takeWhile_encodeStd bs).1]
    exact (mapM_stdValue (mapM_stdValue_digits bs)).2.1
  refine ⟨line_encodeStd bs, ?_⟩
  rw [same]
  exact (digits_bytes_iff digits_lt (bytes_digits bs)).mp rfl

/-- What is read is written back exactly if it is canonical. -/
theorem encodeStd_eq_iff {t : Text} {raw : List UInt8} (read : decodeStd t = some raw) :
    encodeStd raw = t ↔ Canonical t := by
  constructor
  · rintro rfl
    exact encodeStd_canonical raw
  · rintro ⟨line, zero⟩
    obtain ⟨k, short, shape, whole, again, small⟩ := decodeStd_eq_some line read
    have same := (digits_bytes_iff small again).mpr zero
    -- the padding is the one that completes the last four digits
    have length := length_digits raw
    have total : t.length = (digitsOf t).length + k := by
      rw [shape, List.length_append, List.length_map, List.length_replicate, ← shape]
    rw [padding, List.length_replicate, same] at length
    have count : (3 - raw.length % 3) % 3 = k := by omega
    rw [encodeStd, padding, count, same, ← shape]

/-- Without padding and line breaks there are no spare bits. -/
theorem canonical_of_unpadded {t : Text} {raw : List UInt8} (read : decodeStd t = some raw)
    (line : '\r' ∉ t ∧ '\n' ∉ t) (plain : '=' ∉ t) : Canonical t := by
  refine ⟨line, ?_⟩
  obtain ⟨k, _, shape, whole, _, _⟩ := decodeStd_eq_some line read
  have none : k = 0 := by
    by_contra some'
    exact plain (shape ▸ List.mem_append_right _ (List.mem_replicate.mpr ⟨some', rfl⟩))
  have length : (digitsOf t).length % 4 = 0 := by
    rw [shape, none, List.replicate_zero, List.append_nil, List.length_map] at whole
    exact whole
  revert length
  generalize digitsOf t = ds
  clear shape
  intro length
  fun_induction spare ds with
  | case1 => rfl
  | case2 => rfl
  | case3 => cases length
  | case4 => cases length
  | case5 a b c d rest ih => exact ih (by simp only [List.length_cons] at length; omega)

end Base64
