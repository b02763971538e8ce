import Protean.Text

/- Base64 with the alphabet for URLs and without padding, as
`base64.RawURLEncoding` writes and reads it. -/
namespace Base64

def alphabet : Text := "ABCDEFGHIJKLMNOPQRSTUVWXYZabcdefghijklmnopqrstuvwxyz0123456789-_".toList

def digit (n : Nat) : Char := alphabet.getD n 'A'

def value (c : Char) : Option Nat := alphabet.findIdx? (· = c)

/-- Three bytes are four digits; one or two bytes at the end are two or three,
filled up with zero bits. -/
def digits : List UInt8 → List Nat
  | [] => []
  | [x] => [x.toNat / 4, x.toNat % 4 * 16]
  | [x, y] => [x.toNat / 4, x.toNat % 4 * 16 + y.toNat / 16, y.toNat % 16 * 4]
  | x :: y :: z :: rest =>
    (x.toNat / 4) :: (x.toNat % 4 * 16 + y.toNat / 16) :: (y.toNat % 16 * 4 + z.toNat / 64) :: (z.toNat % 64) ::
      digits rest

/-- The bits that do not fill a byte at the end are dropped. -/
def bytes : List Nat → Option (List UInt8)
  | [] => some []
  | [_] => none
  | [a, b] => some [.ofNat (a * 4 + b / 16)]
  | [a, b, c] => some [.ofNat (a * 4 + b / 16), .ofNat (b % 16 * 16 + c / 4)]
  | a :: b :: c :: d :: rest =>
    (bytes rest).map fun tail =>
      .ofNat (a * 4 + b / 16) :: .ofNat (b % 16 * 16 + c / 4) :: .ofNat (c % 4 * 64 + d) :: tail

def encode (bs : List UInt8) : Text := (digits bs).map digit

/-- Line breaks are skipped, any other character outside the alphabet is an error. -/
def decode (t : Text) : Option (List UInt8) := (t.filter fun c => c ≠ '\r' ∧ c ≠ '\n').mapM value >>= bytes

variable {bs : List UInt8}

theorem digits_lt : ∀ n ∈ digits bs, n < 64 := by
  fun_induction digits bs with
  | case1 => simp
  | case2 x =>
    have hx := x.toNat_lt
    simp only [List.forall_mem_cons, List.not_mem_nil, false_implies, implies_true, and_true]
    omega
  | case3 x y =>
    have hx := x.toNat_lt
    have hy := y.toNat_lt
    simp only [List.forall_mem_cons, List.not_mem_nil, false_implies, implies_true, and_true]
    omega
  | case4 x y z rest ih =>
    have hx := x.toNat_lt
    have hy := y.toNat_lt
    have hz := z.toNat_lt
    simp only [List.forall_mem_cons]
    exact ⟨by omega, by omega, by omega, by omega, ih⟩

variable {n : Nat}

theorem ofNat_of_eq {x : UInt8} (same : n = x.toNat) : UInt8.ofNat n = x := by
  rw [same, UInt8.ofNat_toNat]

theorem bytes_digits (bs : List UInt8) : bytes (digits bs) = some bs := by
  fun_induction digits bs with
  | case1 => rfl
  | case2 x =>
    rw [bytes, ofNat_of_eq (x := x) (by omega)]
  | case3 x y =>
    have hy := y.toNat_lt
    rw [bytes, ofNat_of_eq (x := x) (by omega), ofNat_of_eq (x := y) (by omega)]
  | case4 x y z rest ih =>
    have hy := y.toNat_lt
    have hz := z.toNat_lt
    rw [bytes, ih, ofNat_of_eq (x := x) (by omega), ofNat_of_eq (x := y) (by omega), ofNat_of_eq (x := z) (by omega)]
    rfl

theorem value_digit (small : n < 64) : value (digit n) = some n := by
  have all : ∀ n ∈ List.range 64, value (digit n) = some n := by decide +kernel
  exact all n (List.mem_range.mpr small)

theorem digit_mem (n : Nat) : digit n ∈ alphabet := by
  rw [digit, List.getD_eq_getElem?_getD]
  cases found : alphabet[n]? with
  | none => decide +kernel
  | some c => exact List.mem_of_getElem? found

variable {c : Char}

theorem mem_alphabet_of_mem_encode (member : c ∈ encode bs) : c ∈ alphabet := by
  obtain ⟨n, _, rfl⟩ := List.mem_map.mp member
  exact digit_mem n

/-- Nothing outside the alphabet is written. -/
theorem not_mem_encode (outside : c ∉ alphabet) (bs : List UInt8) : c ∉ encode bs :=
  fun member => outside (mem_alphabet_of_mem_encode member)

/-- A text on one line has no line breaks to skip. -/
theorem filter_line {t : Text} (line : '\r' ∉ t ∧ '\n' ∉ t) : t.filter (fun c => c ≠ '\r' ∧ c ≠ '\n') = t := by
  refine List.filter_eq_self.mpr fun c member => decide_eq_true ⟨?_, ?_⟩
  · rintro rfl
    exact line.1 member
  · rintro rfl
    exact line.2 member

theorem decode_encode (bs : List UInt8) : decode (encode bs) = some bs := by
  have outside : '\r' ∉ alphabet ∧ '\n' ∉ alphabet := by decide +kernel
  have unbroken := filter_line ⟨not_mem_encode outside.1 bs, not_mem_encode outside.2 bs⟩
  have read : (encode bs).mapM value = some (digits bs) := by
    rw [List.mapM_option_eq_some, encode, List.forall₂_map_left_iff, List.forall₂_same]
    exact fun n member => value_digit (digits_lt n member)
  rw [decode, unbroken, read]
  exact bytes_digits bs

theorem encode_eq_nil_iff : encode bs = [] ↔ bs = [] := by
  constructor
  · intro empty
    have back := decode_encode bs
    rw [empty] at back
    exact (Option.some.inj back).symm
  · rintro rfl
    rfl

/-- The alphabet of `base64.StdEncoding`, which fills up the last four digits. -/
def stdAlphabet : Text := "ABCDEFGHIJKLMNOPQRSTUVWXYZabcdefghijklmnopqrstuvwxyz0123456789+/".toList

def stdDigit (n : Nat) : Char := stdAlphabet.getD n 'A'

def stdValue (c : Char) : Option Nat := stdAlphabet.findIdx? (· = c)

def padding (length : Nat) : Text := List.replicate ((3 - length % 3) % 3) '='

def encodeStd (bs : List UInt8) : Text := (digits bs).map stdDigit ++ padding bs.length

/-- Line breaks are skipped wherever they are; the padding has to be there, and
nothing may follow it. -/
def decodeStd (t : Text) : Option (List UInt8) :=
  let unbroken := t.filter fun c => c ≠ '\r' ∧ c ≠ '\n'
  let pad := unbroken.dropWhile (· ≠ '=')
  if unbroken.length % 4 = 0 ∧ pad.length ≤ 2 ∧ pad.all (· = '=') then
    (unbroken.takeWhile (· ≠ '=')).mapM stdValue >>= bytes
  else none

theorem stdValue_stdDigit (small : n < 64) : stdValue (stdDigit n) = some n := by
  have all : ∀ n ∈ List.range 64, stdValue (stdDigit n) = some n := by decide +kernel
  exact all n (List.mem_range.mpr small)

theorem stdDigit_mem (n : Nat) : stdDigit n ∈ stdAlphabet := by
  rw [stdDigit, List.getD_eq_getElem?_getD]
  cases found : stdAlphabet[n]? with
  | none => decide +kernel
  | some c => exact List.mem_of_getElem? found

theorem mem_encodeStd (member : c ∈ encodeStd bs) : c ∈ stdAlphabet ∨ c = '=' := by
  rcases List.mem_append.mp member with digit | pad
  · obtain ⟨n, _, rfl⟩ := List.mem_map.mp digit
    exact .inl (stdDigit_mem n)
  · exact .inr (List.eq_of_mem_replicate pad)

theorem length_digits (bs : List UInt8) : (digits bs).length + (padding bs.length).length = 4 * ((bs.length + 2) / 3) := by
  fun_induction digits bs with
  | case1 => rfl
  | case2 x | case3 x y => simp [padding]
  | case4 x y z rest ih =>
    have same : padding (x :: y :: z :: rest).length = padding rest.length := by
      rw [padding, padding, show (x :: y :: z :: rest).length = rest.length + 3 from rfl, Nat.add_mod_right]
    rw [same]
    simp only [List.length_cons]
    omega

theorem line_encodeStd (bs : List UInt8) : '\r' ∉ encodeStd bs ∧ '\n' ∉ encodeStd bs := by
  have outside : '\r' ∉ stdAlphabet ∧ '\n' ∉ stdAlphabet := by decide +kernel
  exact ⟨fun member => (mem_encodeStd member).elim outside.1 nofun, fun member => (mem_encodeStd member).elim outside.2 nofun⟩

theorem ne_pad_of_mem : ∀ c ∈ (digits bs).map stdDigit, decide (c ≠ '=') = true := by
  intro c member
  obtain ⟨n, _, rfl⟩ := List.mem_map.mp member
  have all : ∀ c ∈ stdAlphabet, decide (c ≠ '=') = true := by decide +kernel
  exact all _ (stdDigit_mem n)

/-- What is in front of the padding are the digits. -/
theorem takeWhile_encodeStd (bs : List UInt8) :
    (encodeStd bs).takeWhile (· ≠ '=') = (digits bs).map stdDigit ∧
      (encodeStd bs).dropWhile (· ≠ '=') = padding bs.length := by
  have pad : ∀ k, (List.replicate k '=').dropWhile (· ≠ '=') = List.replicate k '=' ∧
      (List.replicate k '=').takeWhile (· ≠ '=') = [] := by
    intro k
    cases k <;> simp [List.replicate_succ]
  rw [encodeStd, List.takeWhile_append_of_pos ne_pad_of_mem, List.dropWhile_append_of_pos ne_pad_of_mem, padding,
    (pad _).1, (pad _).2, List.append_nil]
  exact ⟨rfl, rfl⟩

theorem mapM_stdValue_digits (bs : List UInt8) : ((digits bs).map stdDigit).mapM stdValue = some (digits bs) := by
  rw [List.mapM_option_eq_some, List.forall₂_map_left_iff, List.forall₂_same]
  exact fun n member => stdValue_stdDigit (digits_lt n member)

theorem decodeStd_encodeStd (bs : List UInt8) : decodeStd (encodeStd bs) = some bs := by
  have length := length_digits bs
  rw [decodeStd, filter_line (line_encodeStd bs), (takeWhile_encodeStd bs).1, (takeWhile_encodeStd bs).2,
    mapM_stdValue_digits, if_pos]
  · exact bytes_digits bs
  · refine ⟨?_, ?_, ?_⟩
    · rw [encodeStd, List.length_append, List.length_map]
      omega
    · rw [padding, List.length_replicate]
      omega
    · simp [padding]

end Base64

namespace Protean

def utf8 (t : Text) : List UInt8 := t.flatMap String.utf8EncodeChar

/-- Bytes that are no UTF-8 have no text here. -/
def ofUtf8 (bytes : List UInt8) : Option Text := bytes.toByteArray.utf8Decode?.map Array.toList

theorem ofUtf8_utf8 (t : Text) : ofUtf8 (utf8 t) = some t := by
  have encoded : (utf8 t).toByteArray = t.utf8Encode := rfl
  rw [ofUtf8, encoded, List.utf8Decode?_utf8Encode]
  rfl

end Protean
