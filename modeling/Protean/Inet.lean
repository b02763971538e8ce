import Protean.Split

/- Internet addresses and networks, as the standard library of Go reads and
writes them. -/
namespace Inet

inductive Addr
  | v4 (a : BitVec 32)
  | v6 (a : BitVec 128)
  deriving DecidableEq, Repr

def Addr.bitLen : Addr → Nat
  | .v4 _ => 32
  | .v6 _ => 128

/-- No leading zeros, and at most 255. -/
def octet (t : Text) : Option Nat := (Text.readCanonical t).filter (· < 256)

def parseIPv4 (t : Text) : Option (BitVec 32) :=
  match t.splitOn '.' with
  | [a, b, c, d] => do return .ofNat 32 (((← octet a) * 256 + (← octet b)) * 65536 + ((← octet c) * 256 + (← octet d)))
  | _ => none

def hexValue (c : Char) : Option Nat :=
  if c.isDigit then some (c.toNat - '0'.toNat)
  else if 'a' ≤ c ∧ c ≤ 'f' then some (c.toNat - 'a'.toNat + 10)
  else if 'A' ≤ c ∧ c ≤ 'F' then some (c.toNat - 'A'.toNat + 10)
  else none

/-- One to four hexadecimal digits. -/
def hexGroup (t : Text) : Option Nat :=
  if t ≠ [] ∧ t.length ≤ 4 then (t.mapM hexValue).map fun ds => ds.foldl (fun n d => n * 16 + d) 0 else none

/-- At the first `::`. -/
def cutEllipsis : Text → Option (Text × Text)
  | [] => none
  | ':' :: ':' :: rest => some ([], rest)
  | c :: rest => (cutEllipsis rest).map fun parts => (c :: parts.1, parts.2)

def hexGroups (t : Text) : Option (List Nat) := if t = [] then some [] else (t.splitOn ':').mapM hexGroup

/-- The last two groups may be written as an address of version 4. -/
def groups (t : Text) : Option (List Nat) :=
  match Text.cutLast ':' t with
  | some (init, last) =>
    if '.' ∈ last then do
      let front ← (init.splitOn ':').mapM hexGroup
      let a ← parseIPv4 last
      return front ++ [a.toNat / 65536, a.toNat % 65536]
    else hexGroups t
  | none =>
    if '.' ∈ t then do
      let a ← parseIPv4 t
      return [a.toNat / 65536, a.toNat % 65536]
    else hexGroups t

def ofGroups (gs : List Nat) : BitVec 128 := .ofNat 128 (gs.foldl (fun n g => n * 65536 + g) 0)

/-- Eight groups, or fewer with an ellipsis for the zeros between. -/
def parseIPv6 (t : Text) : Option (BitVec 128) :=
  match cutEllipsis t with
  | none => ((groups t).filter (·.length = 8)).map ofGroups
  | some (left, right) => do
    let front ← hexGroups left
    let back ← groups right
    if front.length + back.length ≤ 7 then
      some (ofGroups (front ++ List.replicate (8 - front.length - back.length) 0 ++ back))
    else none

/-- An address without a zone. -/
def parseAddr (t : Text) : Option Addr := if ':' ∈ t then (parseIPv6 t).map .v6 else (parseIPv4 t).map .v4

def mask {w : Nat} (ones : Nat) (a : BitVec w) : BitVec w := a &&& (BitVec.allOnes w <<< (w - ones))

def Addr.mask (ones : Nat) : Addr → Addr
  | .v4 a => .v4 (Inet.mask ones a)
  | .v6 a => .v6 (Inet.mask ones a)

structure IPNet where
  addr : Addr
  ones : Nat
  deriving DecidableEq, Repr

/-- `net.ParseCIDR`: the address, and the network it is in. -/
def parseCIDR (t : Text) : Option (Addr × IPNet) := do
  let (addr, len) ← Text.cut '/' t
  let a ← parseAddr addr
  let ones ← Text.readDecimal len
  if ones ≤ a.bitLen then some (a, ⟨a.mask ones, ones⟩) else none

/-- A host route: every bit of the mask is set. -/
def IPNet.isHost (n : IPNet) : Bool := n.ones = n.addr.bitLen

/-- `To4`: an address of version 6 that stands for one of version 4. -/
def Addr.to4 : Addr → Addr
  | .v4 a => .v4 a
  | .v6 a => if a.toNat / 2 ^ 32 = 0xffff then .v4 (.ofNat 32 a.toNat) else .v6 a

/-- Network and mask length, of version 4 where the address can be. -/
def IPNet.to4 (n : IPNet) : IPNet :=
  match n.addr, n.addr.to4 with
  | .v6 _, .v4 a => ⟨.v4 a, n.ones - 96⟩
  | _, _ => n

def IPNet.contains (n : IPNet) (a : Addr) : Bool :=
  match n.to4.addr, a.to4 with
  | .v4 net, .v4 a => mask n.to4.ones net = mask n.to4.ones a
  | .v6 net, .v6 a => mask n.to4.ones net = mask n.to4.ones a
  | _, _ => false

def hexDigit (n : Nat) : Char := "0123456789abcdef".toList.getD n '0'

def hexText (g : Nat) : Text :=
  (([g / 4096 % 16, g / 256 % 16, g / 16 % 16].dropWhile (· = 0)) ++ [g % 16]).map hexDigit

def toGroups (a : BitVec 128) : List Nat := (List.range 8).map fun i => a.toNat / 65536 ^ (7 - i) % 65536

/-- Where the first of the longest runs of zeros is, if it has two groups or more. -/
def zeroRun (gs : List Nat) : Option (Nat × Nat) :=
  (List.range 8).foldl (fun best i =>
    let len := ((gs.drop i).takeWhile (· = 0)).length
    if 2 ≤ len ∧ (best.map Prod.snd).getD 0 < len then some (i, len) else best) none

def groupsText (gs : List Nat) : Text := [':'].intercalate (gs.map hexText)

def Addr.toText (a : Addr) : Text :=
  match a.to4 with
  | .v4 a =>
    ['.'].intercalate ([a.toNat / 2 ^ 24, a.toNat / 2 ^ 16 % 256, a.toNat / 2 ^ 8 % 256, a.toNat % 256].map Text.decimal)
  | .v6 a =>
    match zeroRun (toGroups a) with
    | none => groupsText (toGroups a)
    | some (start, len) =>
      groupsText ((toGroups a).take start) ++ ':' :: ':' :: groupsText ((toGroups a).drop (start + len))

def IPNet.toText (n : IPNet) : Text := n.to4.addr.toText ++ '/' :: Text.decimal n.to4.ones

/-- The characters of addresses and networks. -/
def textChar (c : Char) : Bool := c.isDigit || c ∈ "abcdefABCDEF.:/".toList

section
variable {t : Text} {c : Char}

theorem textChar_of_isDigit (digit : c.isDigit = true) : textChar c = true := by
  rw [textChar, digit, Bool.true_or]

theorem textChar_octet {n : Nat} (read : octet t = some n) : ∀ c ∈ t, textChar c = true := by
  intro c member
  rw [octet, Option.filter_eq_some_iff] at read
  rw [Text.readCanonical_eq_some.mp read.1] at member
  exact textChar_of_isDigit (Text.isDigit_of_mem_decimal member)

theorem textChar_of_splitOn {sep : Char} (own : textChar sep = true)
    (parts : ∀ part ∈ t.splitOn sep, ∀ c ∈ part, textChar c = true) : ∀ c ∈ t, textChar c = true := by
  intro c member
  by_cases same : c = sep
  · rwa [same]
  · obtain ⟨part, listed, inside⟩ := (Text.mem_splitOn same t).mp member
    exact parts part listed c inside

theorem textChar_parseIPv4 {a : BitVec 32} (read : parseIPv4 t = some a) : ∀ c ∈ t, textChar c = true := by
  unfold parseIPv4 at read
  split at read
  · rename_i x y z w parts
    simp only [Option.bind_eq_bind, Option.bind_eq_some_iff] at read
    obtain ⟨_, first, _, second, _, third, _, fourth, _⟩ := read
    refine @textChar_of_splitOn t '.' (by decide) ?_
    rw [parts]
    simp only [List.forall_mem_cons, List.not_mem_nil, false_implies, implies_true, and_true]
    exact ⟨textChar_octet first, textChar_octet second, textChar_octet third, textChar_octet fourth⟩
  · cases read

theorem textChar_hexValue {n : Nat} (read : hexValue c = some n) : textChar c = true := by
  unfold hexValue at read
  split at read
  · exact textChar_of_isDigit ‹_›
  have range : ∀ lo hi : Char, lo ≤ c → c ≤ hi → c.toNat ∈ List.range' lo.toNat (hi.toNat + 1 - lo.toNat) := by
    intro lo hi low high
    have low : lo.toNat ≤ c.toNat := low
    have high : c.toNat ≤ hi.toNat := high
    rw [List.mem_range'_1]
    omega
  have back : ∀ n, c.toNat = n → c = Char.ofNat n := fun n same => by rw [← same, Char.ofNat_toNat]
  split at read
  · rename_i small
    have all : ∀ n ∈ List.range' 'a'.toNat ('f'.toNat + 1 - 'a'.toNat), textChar (Char.ofNat n) = true := by decide
    rw [back _ rfl]
    exact all _ (range 'a' 'f' small.1 small.2)
  split at read
  · rename_i large
    have all : ∀ n ∈ List.range' 'A'.toNat ('F'.toNat + 1 - 'A'.toNat), textChar (Char.ofNat n) = true := by decide
    rw [back _ rfl]
    exact all _ (range 'A' 'F' large.1 large.2)
  · cases read

theorem textChar_hexGroup {n : Nat} (read : hexGroup t = some n) : ∀ c ∈ t, textChar c = true := by
  unfold hexGroup at read
  split at read
  · obtain ⟨ds, digits, _⟩ := Option.map_eq_some_iff.mp read
    intro c member
    obtain ⟨d, value⟩ := List.exists_of_mapM_option digits member
    exact textChar_hexValue value
  · cases read

theorem textChar_mapM_hexGroup {parts : List Text} {gs : List Nat} (read : parts.mapM hexGroup = some gs) :
    ∀ part ∈ parts, ∀ c ∈ part, textChar c = true := by
  intro part member
  obtain ⟨g, value⟩ := List.exists_of_mapM_option read member
  exact textChar_hexGroup value

theorem textChar_hexGroups {gs : List Nat} (read : hexGroups t = some gs) : ∀ c ∈ t, textChar c = true := by
  unfold hexGroups at read
  split at read
  · rename_i empty
    simp [empty]
  · exact textChar_of_splitOn (by decide) (textChar_mapM_hexGroup read)

theorem textChar_groups {gs : List Nat} (read : groups t = some gs) : ∀ c ∈ t, textChar c = true := by
  unfold groups at read
  split at read
  · rename_i init last parts
    split at read
    · simp only [Option.bind_eq_bind, Option.bind_eq_some_iff] at read
      obtain ⟨_, front, _, back, _⟩ := read
      rw [(Text.cutLast_eq_some_iff.mp parts).1]
      have before := textChar_of_splitOn (by decide) (textChar_mapM_hexGroup front)
      have after := textChar_parseIPv4 back
      simp only [List.mem_append, List.mem_cons]
      rintro c (inFront | rfl | inBack)
      · exact before c inFront
      · decide
      · exact after c inBack
    · exact textChar_hexGroups read
  · split at read
    · simp only [Option.bind_eq_bind, Option.bind_eq_some_iff] at read
      obtain ⟨_, whole, _⟩ := read
      exact textChar_parseIPv4 whole
    · exact textChar_hexGroups read

theorem cutEllipsis_eq {left right : Text} (found : cutEllipsis t = some (left, right)) :
    t = left ++ ':' :: ':' :: right := by
  induction t using cutEllipsis.induct generalizing left with
  | case1 => cases found
  | case2 rest =>
    rw [cutEllipsis] at found
    obtain ⟨rfl, rfl⟩ := Prod.mk.inj (Option.some.inj found)
    rfl
  | case3 c rest other ih =>
    rw [cutEllipsis] at found
    · obtain ⟨⟨l, r⟩, later, same⟩ := Option.map_eq_some_iff.mp found
      obtain ⟨rfl, rfl⟩ := Prod.mk.inj same
      rw [ih later]
      rfl
    · exact other

theorem textChar_parseAddr {a : Addr} (read : parseAddr t = some a) : ∀ c ∈ t, textChar c = true := by
  unfold parseAddr at read
  split at read
  · obtain ⟨b, six, _⟩ := Option.map_eq_some_iff.mp read
    unfold parseIPv6 at six
    split at six
    · obtain ⟨gs, whole, _⟩ := Option.map_eq_some_iff.mp six
      rw [Option.filter_eq_some_iff] at whole
      exact textChar_groups whole.1
    · rename_i left right parts
      simp only [Option.bind_eq_bind, Option.bind_eq_some_iff] at six
      obtain ⟨_, front, _, back, _⟩ := six
      rw [cutEllipsis_eq parts]
      have before := textChar_hexGroups front
      have after := textChar_groups back
      simp only [List.mem_append, List.mem_cons]
      rintro c (inFront | rfl | rfl | inBack)
      · exact before c inFront
      · decide
      · decide
      · exact after c inBack
  · obtain ⟨b, four, _⟩ := Option.map_eq_some_iff.mp read
    exact textChar_parseIPv4 four

/-- A network in text has no character but those of addresses. -/
theorem textChar_parseCIDR {result : Addr × IPNet} (read : parseCIDR t = some result) : ∀ c ∈ t, textChar c = true := by
  simp only [parseCIDR, Option.bind_eq_bind, Option.bind_eq_some_iff] at read
  obtain ⟨⟨addr, len⟩, parts, a, address, ones, digits, _⟩ := read
  rw [(Text.cut_eq_some_iff.mp parts).1]
  have before := textChar_parseAddr address
  have after := (Text.readDecimal_isDigit digits).2
  simp only [List.mem_append, List.mem_cons]
  rintro c (inAddr | rfl | inLen)
  · exact before c inAddr
  · decide
  · exact textChar_of_isDigit (after c inLen)

/-- None of them is a space or a comma. -/
theorem textChar_plain (own : textChar c = true) : Text.isSpace c = false ∧ c ≠ ',' := by
  have small : c.toNat < 128 := by
    rw [textChar, Bool.or_eq_true] at own
    rcases own with digit | listed
    · have bound : c ≤ '9' := by
        rw [Char.isDigit, Bool.and_eq_true] at digit
        exact of_decide_eq_true digit.2
      have bound : c.toNat ≤ '9'.toNat := bound
      have nine : '9'.toNat = 57 := rfl
      omega
    · have all : ∀ c ∈ "abcdefABCDEF.:/".toList, c.toNat < 128 := by decide
      exact all c (of_decide_eq_true listed)
  have all : ∀ n < 128, textChar (Char.ofNat n) = true →
      Text.isSpace (Char.ofNat n) = false ∧ Char.ofNat n ≠ ',' := by decide +kernel
  have known := all c.toNat small
  rw [Char.ofNat_toNat] at known
  exact known own

theorem textChar_intercalate {sep : Char} (own : textChar sep = true) {parts : List Text}
    (all : ∀ part ∈ parts, ∀ c ∈ part, textChar c = true) : ∀ c ∈ [sep].intercalate parts, textChar c = true := by
  intro c member
  by_cases same : c = sep
  · rwa [same]
  · obtain ⟨part, listed, inside⟩ := (Text.mem_intercalate same parts).mp member
    exact all part listed c inside

theorem textChar_decimals (ns : List Nat) : ∀ part ∈ ns.map Text.decimal, ∀ c ∈ part, textChar c = true := by
  intro part member c inside
  obtain ⟨n, _, rfl⟩ := List.mem_map.mp member
  exact textChar_of_isDigit (Text.isDigit_of_mem_decimal inside)

theorem textChar_hexText (g : Nat) : ∀ c ∈ hexText g, textChar c = true := by
  intro c member
  obtain ⟨d, _, rfl⟩ := List.mem_map.mp member
  have all : ∀ n < 16, textChar (hexDigit n) = true := by decide
  by_cases small : d < 16
  · exact all d small
  · have length : "0123456789abcdef".toList.length = 16 := by decide
    rw [hexDigit, List.getD_eq_getElem?_getD, List.getElem?_eq_none (by omega)]
    rfl

theorem textChar_groupsText (gs : List Nat) : ∀ c ∈ groupsText gs, textChar c = true := by
  refine textChar_intercalate (by decide) fun part member => ?_
  obtain ⟨g, _, rfl⟩ := List.mem_map.mp member
  exact textChar_hexText g

theorem textChar_toText (a : Addr) : ∀ c ∈ a.toText, textChar c = true := by
  unfold Addr.toText
  split
  · exact textChar_intercalate (by decide) (textChar_decimals _)
  · split
    · exact textChar_groupsText _
    · simp only [List.mem_append, List.mem_cons]
      rintro c (inFront | rfl | rfl | inBack)
      · exact textChar_groupsText _ c inFront
      · decide
      · decide
      · exact textChar_groupsText _ c inBack

theorem IPNet.textChar_toText (n : IPNet) : ∀ c ∈ n.toText, textChar c = true := by
  simp only [IPNet.toText, List.mem_append, List.mem_cons]
  rintro c (inAddr | rfl | inLen)
  · exact Inet.textChar_toText _ c inAddr
  · decide
  · exact textChar_of_isDigit (Text.isDigit_of_mem_decimal inLen)

theorem IPNet.toText_ne_nil (n : IPNet) : n.toText ≠ [] := by simp [IPNet.toText]

end

end Inet
