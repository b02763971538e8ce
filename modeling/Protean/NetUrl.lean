import Mathlib.Data.List.Sort
import Protean.Base64
import Protean.Inet

/- URLs with a user and a host, as `net/url` writes and reads them. -/
namespace NetUrl

open Protean

/-- The part of a URL a text stands in. -/
inductive Mode
  | path
  | userPassword
  | host
  | queryComponent
  | fragment
  deriving DecidableEq, Repr

def shouldEscape (mode : Mode) (c : Char) : Bool :=
  if c.isAlphanum then false
  else if mode = .host ∧ c ∈ "!$&'()*+,;=:[]<>\"".toList then false
  else if c ∈ "-_.~".toList then false
  else if mode = .path ∧ c ∈ "$&+,/:;=@".toList then false
  else if mode = .userPassword ∧ c ∈ "$&+,;=".toList then false
  else if mode = .fragment ∧ c ∈ "$&+,/:;=?@!()*".toList then false
  else true

def upperHex (n : Nat) : Char := "0123456789ABCDEF".toList.getD n '0'

def percent (b : UInt8) : Text := ['%', upperHex (b.toNat / 16), upperHex (b.toNat % 16)]

/-- Only ASCII stands for itself. -/
def escapeChar (mode : Mode) (c : Char) : Text :=
  if mode = .queryComponent ∧ c = ' ' then ['+']
  else if shouldEscape mode c then (String.utf8EncodeChar c).flatMap percent
  else [c]

def escape (mode : Mode) (t : Text) : Text := t.flatMap (escapeChar mode)

/-- In a host only bytes outside ASCII and the percent sign may be escaped. -/
def mayEscape (mode : Mode) (hi lo : Nat) : Bool := mode ≠ .host || 8 ≤ hi || (hi = 2 && lo = 5)

def unescapeBytes (mode : Mode) : Text → Option (List UInt8)
  | [] => some []
  | c :: rest =>
    if c = '%' then
      match rest with
      | a :: b :: rest => do
        let hi ← Inet.hexValue a
        let lo ← Inet.hexValue b
        if mayEscape mode hi lo then (unescapeBytes mode rest).map (.ofNat (hi * 16 + lo) :: ·) else none
      | _ => none
    else if mode = .queryComponent ∧ c = '+' then (unescapeBytes mode rest).map (0x20 :: ·)
    else if mode = .host ∧ c.toNat < 128 ∧ shouldEscape mode c then none
    else (unescapeBytes mode rest).map (String.utf8EncodeChar c ++ ·)

def unescape (mode : Mode) (t : Text) : Option Text := (unescapeBytes mode t).bind ofUtf8

/-- A URL with an authority. Of the user information only the name is kept, and
of the path nothing. -/
structure URL where
  user : Option Text
  host : Text
  rawQuery : Text
  fragment : Text
  deriving DecidableEq, Repr

/-- What follows the scheme and `://`. -/
def URL.toText (u : URL) : Text :=
  (u.user.elim [] fun name => escape .userPassword name ++ ['@']) ++ escape .host u.host ++
    (if u.rawQuery ≠ [] then '?' :: u.rawQuery else []) ++
    if u.fragment ≠ [] then '#' :: escape .fragment u.fragment else []

def validUserinfo (t : Text) : Bool := t.all fun c => c.isAlphanum || c ∈ "-._:~!$&'()*+,;=%@".toList

def isControl (c : Char) : Bool := c.toNat < 0x20 || c.toNat = 0x7f

section
-- a host in brackets is read in different ways by different versions of the package
variable (literal : Text → Option Text)

def parseHost (t : Text) : Option Text :=
  if '[' ∈ t then literal t
  else
    match Text.cutLast ':' t with
    | some (_, port) => if port.all Char.isDigit then unescape .host t else none
    | none => unescape .host t

def parseAuthority (t : Text) : Option (Option Text × Text) :=
  match Text.cutLast '@' t with
  | none => (parseHost literal t).map (none, ·)
  | some (userinfo, host) => do
    let host ← parseHost literal host
    if validUserinfo userinfo then
      let (name, password) := (Text.cut ':' userinfo).getD (userinfo, [])
      let name ← unescape .userPassword name
      let _ ← unescape .userPassword password
      return (some name, host)
    else none

/-- `url.Parse` of what follows the scheme and `://`. -/
def parse (t : Text) : Option URL := do
  let (front, fragment) := (Text.cut '#' t).getD (t, [])
  if front.any isControl then none
  else
    let (hier, rawQuery) := (Text.cut '?' front).getD (front, [])
    let (authority, path) := (Text.cut '/' hier).getD (hier, [])
    let (user, host) ← parseAuthority literal authority
    let _ ← unescape .path path
    let fragment ← unescape .fragment fragment
    return ⟨user, host, rawQuery, fragment⟩

end

/-- The values of a query, in the order in which they stand there. -/
abbrev Values := List (Text × Text)

def readPair (part : Text) : Option (Text × Text) :=
  if ';' ∈ part ∨ part = [] then none
  else do
    let (key, value) := (Text.cut '=' part).getD (part, [])
    return (← unescape .queryComponent key, ← unescape .queryComponent value)

/-- A part that cannot be read is passed over. -/
def parseQuery (t : Text) : Values := (t.splitOn '&').filterMap readPair

def Values.get (v : Values) (key : Text) : Text := (v.lookup key).getD []

def keyLE (a b : Text × Text) : Bool := !b.1.lex a.1 fun c d => decide (c.toNat < d.toNat)

def encodePair (pair : Text × Text) : Text :=
  escape .queryComponent pair.1 ++ '=' :: escape .queryComponent pair.2

/-- Ordered by key. -/
def Values.encode (v : Values) : Text :=
  ['&'].intercalate ((v.insertionSort fun a b => keyLE a b = true).map encodePair)

section
variable {mode : Mode} {c : Char} {t : Text}

theorem hexValue_upperHex {n : Nat} (small : n < 16) : Inet.hexValue (upperHex n) = some n := by
  have all : ∀ n ∈ List.range 16, Inet.hexValue (upperHex n) = some n := by decide +kernel
  exact all n (List.mem_range.mpr small)

/-- The characters that an escape is made of. -/
def escapeChars : Text := "%+0123456789ABCDEF".toList

theorem upperHex_mem (n : Nat) : upperHex n ∈ escapeChars := by
  rw [upperHex, List.getD_eq_getElem?_getD]
  cases found : "0123456789ABCDEF".toList[n]? with
  | none => decide
  | some c =>
    have all : ∀ c ∈ "0123456789ABCDEF".toList, c ∈ escapeChars := by decide
    exact all c (List.mem_of_getElem? found)

theorem mem_escapeChar {d : Char} (member : d ∈ escapeChar mode c) : shouldEscape mode d = false ∨ d ∈ escapeChars := by
  unfold escapeChar at member
  split at member
  · rw [List.mem_singleton.mp member]
    exact .inr (by decide)
  split at member
  · obtain ⟨b, _, inside⟩ := List.mem_flatMap.mp member
    rw [percent, List.mem_cons, List.mem_cons, List.mem_singleton] at inside
    rcases inside with rfl | rfl | rfl
    · exact .inr (by decide)
    · exact .inr (upperHex_mem _)
    · exact .inr (upperHex_mem _)
  · rename_i plain
    rw [List.mem_singleton.mp member]
    exact .inl (by simpa using plain)

/-- What is written is left as it is, or part of an escape. -/
theorem mem_escape (member : c ∈ escape mode t) : shouldEscape mode c = false ∨ c ∈ escapeChars := by
  obtain ⟨d, _, inside⟩ := List.mem_flatMap.mp member
  exact mem_escapeChar inside

theorem not_mem_escape (escaped : shouldEscape mode c = true) (outside : c ∉ escapeChars) (t : Text) :
    c ∉ escape mode t := by
  intro member
  rcases mem_escape member with plain | part
  · rw [escaped] at plain
    cases plain
  · exact outside part

/-- The characters that are left as they are in some part. -/
def plainChars : Text := "!$&'()*+,;=:[]<>\"-_.~/?@".toList

theorem plain_of_shouldEscape (plain : shouldEscape mode c = false) : c.isAlphanum = true ∨ c ∈ plainChars := by
  unfold shouldEscape at plain
  split at plain
  · exact .inl ‹_›
  refine .inr ?_
  have sub : ∀ s ∈ ["!$&'()*+,;=:[]<>\"".toList, "-_.~".toList, "$&+,/:;=@".toList, "$&+,;=".toList,
      "$&+,/:;=?@!()*".toList], ∀ c ∈ s, c ∈ plainChars := by decide
  split at plain
  · rename_i listed
    exact sub _ (by decide) c listed.2
  split at plain
  · rename_i listed
    exact sub _ (by decide) c listed
  split at plain
  · rename_i listed
    exact sub _ (by decide) c listed.2
  split at plain
  · rename_i listed
    exact sub _ (by decide) c listed.2
  split at plain
  · rename_i listed
    exact sub _ (by decide) c listed.2
  · cases plain

theorem toNat_of_isAlphanum (letter : c.isAlphanum = true) : 0x20 < c.toNat ∧ c.toNat < 0x7f := by
  delta Char.isAlphanum Char.isAlpha Char.isUpper Char.isLower Char.isDigit at letter
  simp only [Bool.or_eq_true, Bool.and_eq_true, decide_eq_true_eq, UInt32.le_iff_toNat_le, ge_iff_le] at letter
  have value : c.toNat = c.val.toNat := rfl
  have bounds : 'A'.val.toNat = 65 ∧ 'Z'.val.toNat = 90 ∧ 'a'.val.toNat = 97 ∧ 'z'.val.toNat = 122 ∧
      '0'.val.toNat = 48 ∧ '9'.val.toNat = 57 := by decide
  omega

/-- Everything that is written is printable ASCII. -/
theorem toNat_of_mem_escape (member : c ∈ escape mode t) : 0x20 < c.toNat ∧ c.toNat < 0x7f := by
  have listed : ∀ d ∈ plainChars ++ escapeChars, 0x20 < d.toNat ∧ d.toNat < 0x7f := by decide
  rcases mem_escape member with plain | part
  · rcases plain_of_shouldEscape plain with letter | other
    · exact toNat_of_isAlphanum letter
    · exact listed c (List.mem_append_left _ other)
  · exact listed c (List.mem_append_right _ part)

theorem isSpace_of_toNat (low : 0x20 < c.toNat) (high : c.toNat < 0x7f) : Text.isSpace c = false := by
  have all : ∀ n < 0x7f, 0x20 < n → Text.isSpace (Char.ofNat n) = false := by decide +kernel
  have known := all c.toNat high low
  rwa [Char.ofNat_toNat] at known

theorem isControl_of_toNat (low : 0x20 < c.toNat) (high : c.toNat < 0x7f) : isControl c = false := by
  simp only [isControl, Bool.or_eq_false_iff, decide_eq_false_iff_not]
  omega

theorem unescapeBytes_cons (other : c ≠ '%') (rest : Text) : unescapeBytes mode (c :: rest) =
    if mode = .queryComponent ∧ c = '+' then (unescapeBytes mode rest).map (0x20 :: ·)
    else if mode = .host ∧ c.toNat < 128 ∧ shouldEscape mode c then none
    else (unescapeBytes mode rest).map (String.utf8EncodeChar c ++ ·) := by
  rw [unescapeBytes.eq_def]
  exact if_neg other

-- a host is left out: not every byte may be escaped there
theorem unescapeBytes_percent (read : mode ≠ .host) (b : UInt8) (rest : Text) :
    unescapeBytes mode (percent b ++ rest) = (unescapeBytes mode rest).map (b :: ·) := by
  have bound := b.toNat_lt
  have whole : UInt8.ofNat (b.toNat / 16 * 16 + b.toNat % 16) = b := Base64.ofNat_of_eq (by omega)
  have may : mayEscape mode (b.toNat / 16) (b.toNat % 16) = true := by simp [mayEscape, read]
  simp only [percent, List.cons_append, List.nil_append]
  rw [unescapeBytes, if_pos rfl]
  simp only [hexValue_upperHex (show b.toNat / 16 < 16 by omega), hexValue_upperHex (show b.toNat % 16 < 16 by omega),
    Option.bind_eq_bind, Option.bind_some, may, if_true, whole]

theorem unescapeBytes_percents (read : mode ≠ .host) (bs : List UInt8) (rest : Text) :
    unescapeBytes mode (bs.flatMap percent ++ rest) = (unescapeBytes mode rest).map (bs ++ ·) := by
  induction bs with
  | nil => simp
  | cons b bs ih =>
    rw [List.flatMap_cons, List.append_assoc, unescapeBytes_percent read, ih, Option.map_map]
    rfl

theorem unescapeBytes_escapeChar (read : mode ≠ .host) (c : Char) (rest : Text) :
    unescapeBytes mode (escapeChar mode c ++ rest) = (unescapeBytes mode rest).map (String.utf8EncodeChar c ++ ·) := by
  unfold escapeChar
  split
  · rename_i space
    obtain ⟨rfl, rfl⟩ := space
    rw [List.singleton_append, unescapeBytes_cons (by decide), if_pos ⟨rfl, rfl⟩]
    rfl
  split
  · exact unescapeBytes_percents read _ rest
  · rename_i plain
    have other : c ≠ '%' := by
      rintro rfl
      cases mode <;> exact plain (by decide)
    have sign : ¬ (mode = .queryComponent ∧ c = '+') := by
      rintro ⟨rfl, rfl⟩
      exact plain (by decide)
    rw [List.singleton_append, unescapeBytes_cons other, if_neg sign, if_neg fun host => read host.1]

theorem unescapeBytes_escape (read : mode ≠ .host) (t : Text) : unescapeBytes mode (escape mode t) = some (utf8 t) := by
  induction t with
  | nil => rfl
  | cons c t ih =>
    have here := unescapeBytes_escapeChar read c (escape mode t)
    rw [ih] at here
    exact here

/-- What was escaped is read back. -/
theorem unescape_escape (read : mode ≠ .host) (t : Text) : unescape mode (escape mode t) = some t := by
  rw [unescape, unescapeBytes_escape read, Option.bind_some, ofUtf8_utf8]

/-- A host without a character to escape is written and read as it is. -/
theorem escape_plain (plain : ∀ c ∈ t, shouldEscape mode c = false) (read : mode ≠ .queryComponent) :
    escape mode t = t := by
  induction t with
  | nil => rfl
  | cons c t ih =>
    rw [List.forall_mem_cons] at plain
    have head : escapeChar mode c = [c] := by
      rw [escapeChar, if_neg fun query => read query.1, if_neg (by simp [plain.1])]
    rw [escape, List.flatMap_cons, head, ← escape, ih plain.2]
    rfl

theorem unescape_host (plain : ∀ c ∈ t, shouldEscape .host c = false) : unescape .host t = some t := by
  have bytes : unescapeBytes .host t = some (utf8 t) := by
    induction t with
    | nil => rfl
    | cons c t ih =>
      rw [List.forall_mem_cons] at plain
      have other : c ≠ '%' := by
        rintro rfl
        exact absurd plain.1 (by decide)
      rw [unescapeBytes_cons other, if_neg (by simp), if_neg (by simp [plain.1]), ih plain.2]
      rfl
  rw [unescape, bytes, Option.bind_some, ofUtf8_utf8]

theorem validUserinfo_escape (t : Text) : validUserinfo (escape .userPassword t) = true := by
  rw [validUserinfo, List.all_eq_true]
  intro c member
  have escapes : ∀ d ∈ escapeChars, (d.isAlphanum || decide (d ∈ "-._:~!$&'()*+,;=%@".toList)) = true := by decide
  rcases mem_escape member with plain | part
  · rcases plain_of_shouldEscape plain with letter | other
    · rw [letter, Bool.true_or]
    · have all : ∀ d ∈ plainChars, shouldEscape .userPassword d = false →
          (d.isAlphanum || decide (d ∈ "-._:~!$&'()*+,;=%@".toList)) = true := by decide
      exact all c other plain
  · exact escapes c part

end

/-- What a URL has to be for its text to be read back. -/
structure URL.Valid (u : URL) : Prop where
  host_plain : ∀ c ∈ u.host, shouldEscape .host c = false
  host_name : '[' ∉ u.host
  port : ∀ name port, Text.cutLast ':' u.host = some (name, port) → port.all Char.isDigit = true
  query_plain : ∀ c ∈ u.rawQuery, 0x20 < c.toNat ∧ c.toNat < 0x7f
  query_single : '#' ∉ u.rawQuery

section
variable {u : URL} {name : Text}

theorem parseHost_of_valid (literal : Text → Option Text) (valid : u.Valid) : parseHost literal u.host = some u.host := by
  rw [parseHost, if_neg valid.host_name]
  cases found : Text.cutLast ':' u.host with
  | none => exact unescape_host valid.host_plain
  | some parts =>
    dsimp only
    rw [if_pos (valid.port parts.1 parts.2 found)]
    exact unescape_host valid.host_plain

/-- No character of a host ends it. -/
theorem not_mem_host {d : Char} (valid : u.Valid) (ends : shouldEscape .host d = true) : d ∉ u.host := by
  intro member
  have plain := valid.host_plain d member
  rw [ends] at plain
  cases plain

theorem parseAuthority_user (literal : Text → Option Text) (valid : u.Valid) (name : Text) :
    parseAuthority literal (escape .userPassword name ++ '@' :: u.host) = some (some name, u.host) := by
  have last : Text.cutLast '@' (escape .userPassword name ++ '@' :: u.host) = some (escape .userPassword name, u.host) :=
    Text.cutLast_eq_some_iff.mpr ⟨rfl, not_mem_host valid (by decide)⟩
  have single : Text.cut ':' (escape .userPassword name) = none :=
    Text.cut_eq_none_iff.mpr (not_mem_escape (by decide) (by decide) name)
  rw [parseAuthority, last]
  simp only [parseHost_of_valid literal valid, validUserinfo_escape, single, Option.bind_eq_bind, Option.bind_some, if_true,
    Option.getD_none, unescape_escape (show Mode.userPassword ≠ .host by decide)]
  rfl

theorem toNat_of_mem_toText {c : Char} (valid : u.Valid) (member : c ∈ u.toText) : 0x20 < c.toNat ∧ c.toNat < 0x7f := by
  simp only [URL.toText, List.mem_append] at member
  rcases member with ((inUser | inHost) | inQuery) | inFragment
  · cases named : u.user with
    | none =>
      rw [named] at inUser
      cases inUser
    | some name =>
      rw [named] at inUser
      rcases List.mem_append.mp inUser with escaped | mark
      · exact toNat_of_mem_escape escaped
      · rw [List.mem_singleton.mp mark]
        decide
  · exact toNat_of_mem_escape inHost
  · split at inQuery
    · rcases List.mem_cons.mp inQuery with rfl | inside
      · decide
      · exact valid.query_plain c inside
    · cases inQuery
  · split at inFragment
    · rcases List.mem_cons.mp inFragment with rfl | escaped
      · decide
      · exact toNat_of_mem_escape escaped
    · cases inFragment

/-- The text of a URL is read back. -/
theorem parse_toText (literal : Text → Option Text) (valid : u.Valid) (named : u.user = some name) :
    parse literal u.toText = some u := by
  obtain ⟨user, host, rawQuery, fragment⟩ := u
  cases named
  let authority := escape .userPassword name ++ '@' :: host
  let front := authority ++ if rawQuery ≠ [] then '?' :: rawQuery else []
  have user_free : ∀ {d : Char}, shouldEscape .userPassword d = true → d ∉ escapeChars → d ≠ '@' →
      shouldEscape .host d = true → d ∉ authority := by
    intro d user outside other ends
    simp only [authority, List.mem_append, List.mem_cons, not_or]
    exact ⟨not_mem_escape user outside name, other, not_mem_host valid ends⟩
  have whole : URL.toText ⟨some name, host, rawQuery, fragment⟩ =
      front ++ if fragment ≠ [] then '#' :: escape .fragment fragment else [] := by
    simp [URL.toText, front, authority, escape_plain valid.host_plain]
  have unmarked : '#' ∉ front := by
    simp only [front, List.mem_append, not_or]
    refine ⟨user_free (by decide) (by decide) (by decide) (by decide), ?_⟩
    split
    · simpa using valid.query_single
    · simp
  have cutFragment : (Text.cut '#' (URL.toText ⟨some name, host, rawQuery, fragment⟩)).getD
      (URL.toText ⟨some name, host, rawQuery, fragment⟩, []) = (front, escape .fragment fragment) := by
    rw [whole]
    by_cases empty : fragment = []
    · rw [if_neg (by simp [empty]), List.append_nil, Text.cut_eq_none_iff.mpr unmarked, empty]
      rfl
    · rw [if_pos empty, Text.cut_eq_some_iff.mpr ⟨rfl, unmarked⟩]
      rfl
  have cutQuery : (Text.cut '?' front).getD (front, []) = (authority, rawQuery) := by
    have free : '?' ∉ authority := user_free (by decide) (by decide) (by decide) (by decide)
    by_cases empty : rawQuery = []
    · simp only [front, empty, ne_eq, not_true_eq_false, if_false, List.append_nil, Text.cut_eq_none_iff.mpr free,
        Option.getD_none]
    · simp only [front, ne_eq, empty, not_false_eq_true, if_true, Text.cut_eq_some_iff.mpr ⟨rfl, free⟩, Option.getD_some]
  have cutPath : (Text.cut '/' authority).getD (authority, []) = (authority, []) := by
    rw [Text.cut_eq_none_iff.mpr (user_free (by decide) (by decide) (by decide) (by decide))]
    rfl
  have printable : front.any isControl = false := by
    rw [List.any_eq_false]
    intro c member
    have range := toNat_of_mem_toText valid (whole ▸ List.mem_append_left _ member)
    simp [isControl_of_toNat range.1 range.2]
  unfold parse
  simp only [cutFragment, printable, cutQuery, cutPath, authority, parseAuthority_user literal valid, Option.bind_eq_bind,
    Option.bind_some, Bool.false_eq_true, if_false, unescape_escape (show Mode.fragment ≠ .host by decide)]
  rfl

end

section
variable {v : Values} {key : Text}

theorem not_mem_encodePair {d : Char} (escaped : shouldEscape .queryComponent d = true) (outside : d ∉ escapeChars)
    (other : d ≠ '=') (pair : Text × Text) : d ∉ encodePair pair := by
  simp only [encodePair, List.mem_append, List.mem_cons, not_or]
  exact ⟨not_mem_escape escaped outside _, other, not_mem_escape escaped outside _⟩

theorem toNat_of_mem_encodePair {c : Char} {pair : Text × Text} (member : c ∈ encodePair pair) :
    0x20 < c.toNat ∧ c.toNat < 0x7f := by
  simp only [encodePair, List.mem_append, List.mem_cons] at member
  rcases member with inKey | rfl | inValue
  · exact toNat_of_mem_escape inKey
  · decide
  · exact toNat_of_mem_escape inValue

theorem mem_encode {c : Char} (member : c ∈ v.encode) : c = '&' ∨ ∃ pair, c ∈ encodePair pair := by
  by_cases sep : c = '&'
  · exact .inl sep
  · obtain ⟨part, listed, inside⟩ := (Text.mem_intercalate sep _).mp member
    obtain ⟨pair, _, rfl⟩ := List.mem_map.mp listed
    exact .inr ⟨pair, inside⟩

/-- A query is printable and does not end early. -/
theorem encode_plain (v : Values) : (∀ c ∈ v.encode, 0x20 < c.toNat ∧ c.toNat < 0x7f) ∧ '#' ∉ v.encode := by
  refine ⟨fun c member => ?_, fun member => ?_⟩
  · rcases mem_encode member with rfl | ⟨pair, inside⟩
    · decide
    · exact toNat_of_mem_encodePair inside
  · rcases mem_encode member with sep | ⟨pair, inside⟩
    · cases sep
    · exact not_mem_encodePair (by decide) (by decide) (by decide) pair inside

theorem readPair_encodePair (pair : Text × Text) : readPair (encodePair pair) = some pair := by
  have filled : ¬ (';' ∈ encodePair pair ∨ encodePair pair = []) := by
    rintro (inside | empty)
    · exact not_mem_encodePair (by decide) (by decide) (by decide) pair inside
    · simp [encodePair] at empty
  have parts : Text.cut '=' (encodePair pair) =
      some (escape .queryComponent pair.1, escape .queryComponent pair.2) :=
    Text.cut_eq_some_iff.mpr ⟨rfl, not_mem_escape (by decide) (by decide) _⟩
  rw [readPair, if_neg filled, parts]
  simp only [Option.getD_some, unescape_escape (show Mode.queryComponent ≠ .host by decide)]
  rfl

/-- A query is read back in the order of its keys. -/
theorem parseQuery_encode (v : Values) : parseQuery v.encode = v.insertionSort fun a b => keyLE a b = true := by
  rw [parseQuery, Values.encode]
  generalize v.insertionSort (fun a b => keyLE a b = true) = sorted
  by_cases empty : sorted = []
  · rw [empty]
    rfl
  · have parts : (['&'].intercalate (sorted.map encodePair)).splitOn '&' = sorted.map encodePair := by
      refine (Text.splitOn_eq_iff (by simpa using empty)).mpr ⟨rfl, fun part listed => ?_⟩
      obtain ⟨pair, _, rfl⟩ := List.mem_map.mp listed
      exact not_mem_encodePair (by decide) (by decide) (by decide) pair
    rw [parts, List.filterMap_map]
    have id : readPair ∘ encodePair = some := funext readPair_encodePair
    rw [id, List.filterMap_some]

theorem lookup_of_perm {l l' : Values} (perm : l.Perm l') (distinct : (l.map Prod.fst).Nodup) :
    l.lookup key = l'.lookup key := by
  induction perm with
  | nil => rfl
  | cons x _ ih =>
    rw [List.map_cons, List.nodup_cons] at distinct
    rw [List.lookup_cons, List.lookup_cons, ih distinct.2]
  | swap x y l =>
    rw [List.map_cons, List.map_cons, List.nodup_cons, List.mem_cons, not_or] at distinct
    rw [List.lookup_cons, List.lookup_cons, List.lookup_cons, List.lookup_cons]
    by_cases first : key = y.1
    · have second : (key == x.1) = false := by simpa [first] using distinct.1.1
      rw [second, first, beq_self_eq_true]
    · rw [beq_eq_false_iff_ne.mpr first]
  | trans front _ first second =>
    exact (first distinct).trans (second ((front.map Prod.fst).nodup_iff.mp distinct))

/-- A value that was set is got from the query. -/
theorem get_parseQuery_encode (distinct : (v.map Prod.fst).Nodup) : (parseQuery v.encode).get key = v.get key := by
  have sorted := List.perm_insertionSort (fun a b => keyLE a b = true) v
  rw [parseQuery_encode, Values.get, Values.get, lookup_of_perm sorted.symm distinct]

end

end NetUrl
