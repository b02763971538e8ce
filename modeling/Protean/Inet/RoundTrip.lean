import Protean.Inet.Prefix

namespace Inet

theorem mapM_map_eq_some {α β : Type} {f : α → β} {g : β → Option α} {l : List α} (back : ∀ a ∈ l, g (f a) = some a) :
    (l.map f).mapM g = some l := by
  induction l with
  | nil => rfl
  | cons a l ih =>
    rw [List.forall_mem_cons] at back
    rw [List.map_cons, List.mapM_cons, back.1, ih back.2]
    rfl

theorem octet_decimal {n : Nat} (small : n < 256) : octet (Text.decimal n) = some n := by
  rw [octet, Text.readCanonical_eq_some.mpr rfl]
  simp [small]

theorem dotted_not_mem {c : Char} (other : c ≠ '.') (notDigit : c.isDigit = false) (ns : List Nat) :
    c ∉ ['.'].intercalate (ns.map Text.decimal) := by
  intro member
  obtain ⟨part, listed, inside⟩ := (Text.mem_intercalate other _).mp member
  obtain ⟨n, _, rfl⟩ := List.mem_map.mp listed
  rw [Text.isDigit_of_mem_decimal inside] at notDigit
  cases notDigit

theorem splitOn_dotted {ns : List Nat} (some' : ns ≠ []) :
    (['.'].intercalate (ns.map Text.decimal)).splitOn '.' = ns.map Text.decimal := by
  refine (Text.splitOn_eq_iff (by simpa using some')).mpr ⟨rfl, fun part listed member => ?_⟩
  obtain ⟨n, _, rfl⟩ := List.mem_map.mp listed
  exact absurd (Text.isDigit_of_mem_decimal member) (by decide)

theorem parseIPv4_dotted (a : BitVec 32) :
    parseIPv4 (['.'].intercalate
      ([a.toNat / 2 ^ 24, a.toNat / 2 ^ 16 % 256, a.toNat / 2 ^ 8 % 256, a.toNat % 256].map Text.decimal)) = some a := by
  have bound := a.isLt
  have whole : ((a.toNat / 2 ^ 24) * 256 + a.toNat / 2 ^ 16 % 256) * 65536 +
      (a.toNat / 2 ^ 8 % 256 * 256 + a.toNat % 256) = a.toNat := by omega
  unfold parseIPv4
  rw [splitOn_dotted (by simp)]
  dsimp only [List.map]
  rw [octet_decimal (by omega), octet_decimal (by omega), octet_decimal (by omega), octet_decimal (by omega)]
  dsimp only [Option.bind_eq_bind, Option.bind_some, Option.pure_def]
  rw [whole, BitVec.ofNat_toNat, BitVec.setWidth_eq]

section
variable {g : Nat}

theorem hexValue_hexDigit {d : Nat} (small : d < 16) : hexValue (hexDigit d) = some d := by
  have all : ∀ d < 16, hexValue (hexDigit d) = some d := by decide
  exact all d small

theorem hexDigit_plain {d : Nat} (small : d < 16) : hexDigit d ≠ ':' ∧ hexDigit d ≠ '.' ∧ hexDigit d ≠ '/' := by
  have all : ∀ d < 16, hexDigit d ≠ ':' ∧ hexDigit d ≠ '.' ∧ hexDigit d ≠ '/' := by decide
  exact all d small

/-- The digits of a group, the leading zeros left out. -/
def hexDigits (g : Nat) : List Nat := ([g / 4096 % 16, g / 256 % 16, g / 16 % 16].dropWhile (· = 0)) ++ [g % 16]

theorem hexText_eq (g : Nat) : hexText g = (hexDigits g).map hexDigit := rfl

theorem hexDigits_lt : ∀ d ∈ hexDigits g, d < 16 := by
  intro d member
  rw [hexDigits, List.mem_append] at member
  rcases member with front | last
  · have listed := (List.dropWhile_sublist _).subset front
    simp only [List.mem_cons, List.not_mem_nil, or_false] at listed
    omega
  · rw [List.mem_singleton] at last
    omega

theorem hexDigits_length_le : (hexDigits g).length ≤ 4 := by
  have front := (List.dropWhile_sublist (fun d => decide (d = 0))
    (l := [g / 4096 % 16, g / 256 % 16, g / 16 % 16])).length_le
  rw [hexDigits, List.length_append]
  exact Nat.add_le_add_right front 1

theorem foldl_dropWhile_zero (ds : List Nat) :
    (ds.dropWhile (· = 0)).foldl (fun n d => n * 16 + d) 0 = ds.foldl (fun n d => n * 16 + d) 0 := by
  induction ds with
  | nil => rfl
  | cons d ds ih =>
    by_cases zero : d = 0
    · rw [List.dropWhile_cons_of_pos (by simpa using zero), ih, zero]
      rfl
    · rw [List.dropWhile_cons_of_neg (by simpa using zero)]

theorem foldl_hexDigits (small : g < 65536) : (hexDigits g).foldl (fun n d => n * 16 + d) 0 = g := by
  rw [hexDigits, List.foldl_append, foldl_dropWhile_zero]
  simp only [List.foldl_cons, List.foldl_nil]
  omega

theorem hexText_ne_nil (g : Nat) : hexText g ≠ [] := by simp [hexText]

theorem hexText_plain {c : Char} (member : c ∈ hexText g) : c ≠ ':' ∧ c ≠ '.' ∧ c ≠ '/' := by
  rw [hexText_eq] at member
  obtain ⟨d, listed, rfl⟩ := List.mem_map.mp member
  exact hexDigit_plain (hexDigits_lt d listed)

theorem hexGroup_hexText (small : g < 65536) : hexGroup (hexText g) = some g := by
  have short : (hexText g).length ≤ 4 := by
    rw [hexText_eq, List.length_map]
    exact hexDigits_length_le
  rw [hexGroup, if_pos ⟨hexText_ne_nil g, short⟩, hexText_eq,
    mapM_map_eq_some fun d listed => hexValue_hexDigit (hexDigits_lt d listed), Option.map_some, foldl_hexDigits small]

end

section
variable {gs : List Nat}

theorem groupsText_ne_nil (some' : gs ≠ []) : groupsText gs ≠ [] := by
  cases gs with
  | nil => exact absurd rfl some'
  | cons g gs =>
    intro empty
    obtain ⟨c, member⟩ := List.exists_mem_of_ne_nil _ (hexText_ne_nil g)
    have inside : c ∈ groupsText (g :: gs) :=
      (Text.mem_intercalate (hexText_plain member).1 _).mpr ⟨hexText g, by simp, member⟩
    rw [empty] at inside
    cases inside

theorem groupsText_not_mem {c : Char} (sep : c ≠ ':') (other : c = '.' ∨ c = '/') : c ∉ groupsText gs := by
  intro member
  obtain ⟨part, listed, inside⟩ := (Text.mem_intercalate sep _).mp member
  obtain ⟨g, _, rfl⟩ := List.mem_map.mp listed
  rcases other with rfl | rfl
  · exact (hexText_plain inside).2.1 rfl
  · exact (hexText_plain inside).2.2 rfl

theorem hexGroups_groupsText (small : ∀ g ∈ gs, g < 65536) : hexGroups (groupsText gs) = some gs := by
  by_cases empty : gs = []
  · rw [empty]
    rfl
  · have parts : (groupsText gs).splitOn ':' = gs.map hexText := by
      refine (Text.splitOn_eq_iff (by simpa using empty)).mpr ⟨rfl, fun part listed member => ?_⟩
      obtain ⟨g, _, rfl⟩ := List.mem_map.mp listed
      exact (hexText_plain member).1 rfl
    rw [hexGroups, if_neg (groupsText_ne_nil empty), parts]
    exact mapM_map_eq_some fun g listed => hexGroup_hexText (small g listed)

theorem groups_groupsText (small : ∀ g ∈ gs, g < 65536) : groups (groupsText gs) = some gs := by
  have plain : '.' ∉ groupsText gs := groupsText_not_mem (by decide) (.inl rfl)
  unfold groups
  split
  · rename_i init last parts
    have fresh : '.' ∉ last := by
      intro member
      rw [(Text.cutLast_eq_some_iff.mp parts).1] at plain
      simp [member] at plain
    rw [if_neg fresh, hexGroups_groupsText small]
  · rw [if_neg plain, hexGroups_groupsText small]

end

section
variable {c : Char} {t left right : Text}

theorem cutEllipsis_cons (other : c ≠ ':') (t : Text) :
    cutEllipsis (c :: t) = (cutEllipsis t).map fun parts => (c :: parts.1, parts.2) := by
  rw [cutEllipsis]
  intro rest same
  exact absurd same other

theorem cutEllipsis_colon (other : c ≠ ':') (t : Text) :
    cutEllipsis (':' :: c :: t) = (cutEllipsis (c :: t)).map fun parts => (':' :: parts.1, parts.2) := by
  rw [cutEllipsis]
  intro rest _ same
  exact other (List.cons.inj same).1

theorem cutEllipsis_append {part : Text} (fresh : ':' ∉ part) (none' : cutEllipsis t = none) :
    cutEllipsis (part ++ t) = none := by
  induction part with
  | nil => exact none'
  | cons c part ih =>
    rw [List.mem_cons, not_or] at fresh
    rw [List.cons_append, cutEllipsis_cons (Ne.symm fresh.1), ih fresh.2, Option.map_none]

theorem cutEllipsis_colon_append {part : Text} (some' : part ≠ []) (fresh : ':' ∉ part) (none' : cutEllipsis t = none) :
    cutEllipsis (':' :: (part ++ t)) = none := by
  cases part with
  | nil => exact absurd rfl some'
  | cons c part =>
    have other : c ≠ ':' := fun same => fresh (by simp [same])
    have later := cutEllipsis_append fresh none'
    rw [List.cons_append] at later ⊢
    rw [cutEllipsis_colon other, later, Option.map_none]

/-- No two colons in a row, neither inside nor with one in front. -/
theorem cutEllipsis_groupsText {gs : List Nat} (some' : gs ≠ []) (none' : cutEllipsis t = none) :
    cutEllipsis (groupsText gs ++ t) = none ∧ cutEllipsis (':' :: (groupsText gs ++ t)) = none := by
  have fresh : ∀ g, ':' ∉ hexText g := fun g member => (hexText_plain member).1 rfl
  induction gs with
  | nil => exact absurd rfl some'
  | cons g gs ih =>
    obtain ⟨rest, whole, tail⟩ : ∃ rest, groupsText (g :: gs) ++ t = hexText g ++ rest ∧ cutEllipsis rest = none := by
      cases gs with
      | nil => exact ⟨t, by simp [groupsText], none'⟩
      | cons g' gs =>
        refine ⟨':' :: (groupsText (g' :: gs) ++ t), ?_, (ih (by simp)).2⟩
        simp [groupsText, List.intercalate]
    rw [whole]
    exact ⟨cutEllipsis_append (fresh g) tail, cutEllipsis_colon_append (hexText_ne_nil g) (fresh g) tail⟩

theorem cutEllipsis_found (none' : cutEllipsis (left ++ [':']) = none) :
    cutEllipsis (left ++ ':' :: ':' :: right) = some (left, right) := by
  induction left with
  | nil => rfl
  | cons c left ih =>
    by_cases colon : c = ':'
    · subst colon
      cases left with
      | nil => cases none'
      | cons d left =>
        by_cases next : d = ':'
        · subst next
          cases none'
        · rw [List.cons_append, List.cons_append, cutEllipsis_colon next, Option.map_eq_none_iff] at none'
          rw [List.cons_append, List.cons_append, cutEllipsis_colon next]
          have found := ih none'
          rw [List.cons_append] at found
          rw [found]
          rfl
    · rw [List.cons_append, cutEllipsis_cons colon, Option.map_eq_none_iff] at none'
      rw [List.cons_append, cutEllipsis_cons colon, ih none']
      rfl

end

section
variable (a : BitVec 128)

theorem toGroups_lt : ∀ g ∈ toGroups a, g < 65536 := by
  intro g member
  obtain ⟨i, _, rfl⟩ := List.mem_map.mp member
  exact Nat.mod_lt _ (by decide)

theorem length_toGroups : (toGroups a).length = 8 := by simp [toGroups]

/-- The first groups are the number without its last ones. -/
theorem foldl_groups {n k : Nat} (bound : n < 65536 ^ 8) (few : k ≤ 8) :
    ((List.range k).map fun i => n / 65536 ^ (7 - i) % 65536).foldl (fun m g => m * 65536 + g) 0 =
      n / 65536 ^ (8 - k) := by
  induction k with
  | zero => exact (Nat.div_eq_of_lt bound).symm
  | succ k ih =>
    have shift : n / 65536 ^ (8 - k) = n / 65536 ^ (7 - k) / 65536 := by
      rw [Nat.div_div_eq_div_mul, ← Nat.pow_succ]
      congr 2
      omega
    rw [List.range_succ, List.map_append, List.foldl_append, ih (by omega), shift]
    simp only [List.map_cons, List.map_nil, List.foldl_cons, List.foldl_nil]
    rw [show 8 - (k + 1) = 7 - k by omega]
    omega

theorem ofGroups_toGroups : ofGroups (toGroups a) = a := by
  have whole := foldl_groups (n := a.toNat) (k := 8) a.isLt le_rfl
  rw [ofGroups, toGroups, whole, Nat.sub_self, Nat.pow_zero, Nat.div_one, BitVec.ofNat_toNat, BitVec.setWidth_eq]

/-- The run of zeros is there, and it has two groups or more. -/
theorem zeroRun_spec {gs : List Nat} {start len : Nat} (found : zeroRun gs = some (start, len)) :
    2 ≤ len ∧ gs = gs.take start ++ List.replicate len 0 ++ gs.drop (start + len) := by
  have run : 2 ≤ len ∧ len = ((gs.drop start).takeWhile (· = 0)).length := by
    refine List.foldlRecOn (motive := fun best => ∀ s l, best = some (s, l) →
      2 ≤ l ∧ l = ((gs.drop s).takeWhile (· = 0)).length) (List.range 8) _ (fun _ _ none' => by cases none') ?_
      start len found
    intro best holds i _ s l same
    dsimp only at same
    split at same
    · rename_i longer
      obtain ⟨rfl, rfl⟩ := Prod.mk.inj (Option.some.inj same)
      exact ⟨longer.1, rfl⟩
    · exact holds s l same
  refine ⟨run.1, ?_⟩
  have zeros : (gs.drop start).takeWhile (· = 0) = List.replicate len 0 := by
    refine List.eq_replicate_iff.mpr ⟨run.2.symm, fun g member => ?_⟩
    simpa using List.mem_takeWhile_imp member
  have tail : (gs.drop start).dropWhile (· = 0) = gs.drop (start + len) := by
    rw [← List.drop_drop]
    conv_rhs => rw [← List.takeWhile_append_dropWhile (p := fun g => decide (g = 0)) (l := gs.drop start)]
    rw [run.2, List.drop_left]
  rw [List.append_assoc, ← zeros, ← tail, List.takeWhile_append_dropWhile, List.take_append_drop]

/-- What is printed of a number is read back. -/
theorem parseIPv6_toText {a : BitVec 128} (other : a.toNat / 2 ^ 32 ≠ 0xffff) :
    parseIPv6 (Addr.v6 a).toText = some a := by
  rw [Addr.toText, Addr.to4_of_not_mapped other]
  dsimp only
  have small := toGroups_lt a
  have alone : cutEllipsis [':'] = none := rfl
  cases found : zeroRun (toGroups a) with
  | none =>
    have some' : toGroups a ≠ [] := by simp [toGroups]
    have whole := (cutEllipsis_groupsText some' (rfl : cutEllipsis [] = none)).1
    rw [List.append_nil] at whole
    dsimp only
    rw [parseIPv6, whole]
    dsimp only
    rw [groups_groupsText small]
    simp [length_toGroups, ofGroups_toGroups]
  | some run =>
    obtain ⟨start, len⟩ := run
    obtain ⟨long, parts⟩ := zeroRun_spec found
    have count := congrArg List.length parts
    rw [length_toGroups, List.length_append, List.length_append, List.length_replicate] at count
    have front : cutEllipsis (groupsText ((toGroups a).take start) ++ [':']) = none := by
      by_cases empty : (toGroups a).take start = []
      · rw [empty]
        rfl
      · exact (cutEllipsis_groupsText empty alone).1
    have left := hexGroups_groupsText fun g member => small g (List.mem_of_mem_take (i := start) member)
    have right := groups_groupsText fun g member => small g (List.mem_of_mem_drop (i := start + len) member)
    dsimp only
    rw [parseIPv6, cutEllipsis_found front]
    dsimp only [Option.bind_eq_bind]
    rw [left, right]
    dsimp only [Option.bind_some]
    rw [if_pos (by omega),
      show 8 - ((toGroups a).take start).length - ((toGroups a).drop (start + len)).length = len by omega,
      ← parts, ofGroups_toGroups]

end

theorem toText_v6_mem {a : BitVec 128} (other : a.toNat / 2 ^ 32 ≠ 0xffff) : ':' ∈ (Addr.v6 a).toText := by
  rw [Addr.toText, Addr.to4_of_not_mapped other]
  dsimp only
  split
  · have groups := length_toGroups a
    match h : toGroups a with
    | [] => simp [h] at groups
    | [g] => simp [h] at groups
    | g :: g' :: gs => simp [groupsText, List.intercalate]
  · simp

/-- An address that is printed is read back, as one of version 4 where it can be. -/
theorem parseAddr_toText (a : Addr) : parseAddr a.toText = some a.to4 := by
  have four : ∀ b : BitVec 32, parseAddr (['.'].intercalate ([b.toNat / 2 ^ 24, b.toNat / 2 ^ 16 % 256,
      b.toNat / 2 ^ 8 % 256, b.toNat % 256].map Text.decimal)) = some (.v4 b) := by
    intro b
    rw [parseAddr, if_neg (dotted_not_mem (by decide) (by decide) _), parseIPv4_dotted, Option.map_some]
  cases a with
  | v4 b => exact four b
  | v6 b =>
    by_cases mapped : b.toNat / 2 ^ 32 = 0xffff
    · rw [Addr.toText, Addr.to4_of_mapped mapped]
      exact four _
    · have colon := toText_v6_mem mapped
      rw [parseAddr, if_pos colon, parseIPv6_toText mapped, Option.map_some, Addr.to4_of_not_mapped mapped]

theorem toText_inj {a b : Addr} (same : a.toText = b.toText) : a.to4 = b.to4 := by
  have read := congrArg parseAddr same
  rw [parseAddr_toText, parseAddr_toText] at read
  exact Option.some.inj read

theorem slash_not_mem_toText (a : Addr) : '/' ∉ a.toText := by
  unfold Addr.toText
  split
  · exact dotted_not_mem (by decide) (by decide) _
  · have plain : ∀ gs, '/' ∉ groupsText gs := fun gs => groupsText_not_mem (by decide) (.inr rfl)
    split
    · exact plain _
    · rw [List.mem_append, List.mem_cons, List.mem_cons]
      rintro (front | colon | colon | back)
      · exact plain _ front
      · cases colon
      · cases colon
      · exact plain _ back

theorem mask_self {w : Nat} (a : BitVec w) : mask w a = a := by
  rw [BitVec.toNat_eq, toNat_mask, Nat.sub_self, Nat.pow_zero, Nat.div_one, Nat.mul_one]

theorem Addr.mask_bitLen (a : Addr) : a.mask a.bitLen = a := by
  cases a with
  | v4 a => exact congrArg Addr.v4 (mask_self a)
  | v6 a => exact congrArg Addr.v6 (mask_self a)

/-- The text of a host route. -/
def Addr.hostText (a : Addr) : Text := a.toText ++ '/' :: Text.decimal a.to4.bitLen

theorem parseCIDR_hostText (a : Addr) : parseCIDR a.hostText = some (a.to4, ⟨a.to4, a.to4.bitLen⟩) := by
  rw [parseCIDR, Addr.hostText, Text.cut_eq_some_iff.mpr ⟨rfl, slash_not_mem_toText a⟩]
  dsimp only [Option.bind_eq_bind, Option.bind_some]
  rw [parseAddr_toText]
  dsimp only [Option.bind_some]
  rw [Text.readDecimal_decimal]
  dsimp only [Option.bind_some]
  rw [if_pos le_rfl, Addr.mask_bitLen]

theorem mask_of_dvd {w p : Nat} {a : BitVec w} (whole : 2 ^ (w - p) ∣ a.toNat) : mask p a = a := by
  rw [BitVec.toNat_eq, toNat_mask, Nat.div_mul_cancel whole]

theorem dvd_toNat_mask {w p : Nat} (a : BitVec w) : 2 ^ (w - p) ∣ (mask p a).toNat := by
  rw [toNat_mask]
  exact Nat.dvd_mul_left _ _

/-- The base address of a network stays what it is under the mask, also where it is
read as one of version 4. -/
theorem IPNet.to4_mask (a : Addr) (ones : Nat) (short : ones ≤ a.bitLen) :
    (IPNet.mk (a.mask ones) ones).to4.addr.mask (IPNet.mk (a.mask ones) ones).to4.ones =
      (IPNet.mk (a.mask ones) ones).to4.addr ∧
    (IPNet.mk (a.mask ones) ones).to4.ones ≤ (IPNet.mk (a.mask ones) ones).to4.addr.bitLen := by
  cases a with
  | v4 b => exact ⟨Addr.mask_mask_of_le le_rfl (.v4 b), short⟩
  | v6 b =>
    by_cases mapped : (mask ones b).toNat / 2 ^ 32 = 0xffff
    · have four : (IPNet.mk ((Addr.v6 b).mask ones) ones).to4 = ⟨.v4 (.ofNat 32 (mask ones b).toNat), ones - 96⟩ := by
        simp only [IPNet.to4, Addr.mask, Addr.to4_of_mapped mapped]
      have whole := dvd_toNat_mask (p := ones) b
      have long : 96 ≤ ones := by
        by_contra few
        have even : 2 ^ 33 ∣ (mask ones b).toNat := (Nat.pow_dvd_pow 2 (by omega)).trans whole
        omega
      rw [four]
      dsimp only [Addr.bitLen] at short ⊢
      refine ⟨congrArg Addr.v4 (mask_of_dvd ?_), by omega⟩
      have bits : 32 - (ones - 96) = 128 - ones := by omega
      rw [BitVec.toNat_ofNat, bits]
      exact (Nat.dvd_mod_iff (Nat.pow_dvd_pow 2 (by omega))).mpr whole
    · have six : (IPNet.mk ((Addr.v6 b).mask ones) ones).to4 = ⟨(Addr.v6 b).mask ones, ones⟩ := by
        simp only [IPNet.to4, Addr.mask, Addr.to4_of_not_mapped mapped]
      rw [six]
      exact ⟨Addr.mask_mask_of_le le_rfl (.v6 b), short⟩

theorem Addr.to4_to4 (a : Addr) : a.to4.to4 = a.to4 := by
  cases a with
  | v4 b => rfl
  | v6 b =>
    by_cases mapped : b.toNat / 2 ^ 32 = 0xffff
    · rw [Addr.to4_of_mapped mapped]
      rfl
    · rw [Addr.to4_of_not_mapped mapped, Addr.to4_of_not_mapped mapped]

theorem IPNet.to4_to4 (n : IPNet) : n.to4.to4 = n.to4 := by
  have fixed : n.to4.addr.to4 = n.to4.addr := by rw [n.to4_addr, Addr.to4_to4]
  generalize n.to4 = m at fixed
  obtain ⟨addr, ones⟩ := m
  cases addr with
  | v4 a => rfl
  | v6 a =>
    dsimp only at fixed
    simp only [IPNet.to4, fixed]

theorem parseCIDR_net {t : Text} {a : Addr} {n : IPNet} (read : parseCIDR t = some (a, n)) :
    n.ones ≤ a.bitLen ∧ n = ⟨a.mask n.ones, n.ones⟩ := by
  simp only [parseCIDR, Option.bind_eq_bind, Option.bind_eq_some_iff] at read
  obtain ⟨_, _, _, _, ones, _, made⟩ := read
  split at made
  · obtain ⟨rfl, rfl⟩ := Prod.mk.inj (Option.some.inj made)
    exact ⟨‹_›, rfl⟩
  · cases made

/-- The text of a network that was read is read as the network again. -/
theorem parseCIDR_toText {t : Text} {a : Addr} {n : IPNet} (read : parseCIDR t = some (a, n)) :
    parseCIDR n.toText = some (n.to4.addr, n.to4) := by
  obtain ⟨short, whole⟩ := parseCIDR_net read
  obtain ⟨fixed, fits⟩ := IPNet.to4_mask a n.ones short
  rw [← whole] at fixed fits
  have plain : n.to4.addr.to4 = n.to4.addr := by rw [n.to4_addr, Addr.to4_to4]
  rw [parseCIDR, IPNet.toText, Text.cut_eq_some_iff.mpr ⟨rfl, slash_not_mem_toText _⟩]
  dsimp only [Option.bind_eq_bind, Option.bind_some]
  rw [parseAddr_toText, plain]
  dsimp only [Option.bind_some]
  rw [Text.readDecimal_decimal]
  dsimp only [Option.bind_some]
  rw [if_pos fits, fixed]

end Inet
