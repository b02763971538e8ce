import Protean.PeerForward.Sync

open Netfilter

namespace Protean.PeerForward

/-- The comment of every rule the verb makes for a peer. -/
def peerTag (p : Addr) : Text := tagPrefix ++ addrText p

def Tagged (p : Addr) (r : Rule) : Prop := .comment (peerTag p) ∈ r.modules

instance (p : Addr) (r : Rule) : Decidable (Tagged p r) := inferInstanceAs (Decidable (_ ∈ _))

def ownRule (p : Addr) (src dst : Cidr) (target : Target) : Rule :=
  { src := src, dst := dst, modules := [.comment (peerTag p)], target := some target }

/-- Both directions between a peer and a destination. -/
def allowPair (p : Addr) (dest : Cidr) : List Rule :=
  [ownRule p (.host p) dest .accept, ownRule p dest (.host p) .accept]

def dropPair (p : Addr) : List Rule := [ownRule p (.host p) .any .drop, ownRule p .any (.host p) .drop]

/-- A restriction to the destinations: the last one comes first, and the drops
come after all of them. -/
def fence (p : Addr) (dests : List Cidr) : List Rule := dests.reverse.flatMap (allowPair p) ++ dropPair p

/-- The rules a call for a peer puts at the head of the chain. A list of which
nothing is read still cuts the peer off. -/
def callBlock (p : Addr) (allowed : List Text) : List Rule :=
  if allowed = [] then [] else fence p (allowed.filterMap readCidr)

/-- A call gets past every check, and the host has a packet filter. -/
def taken (listing : Listing) (peerAddr : Text) (allowed : List Text) : Bool :=
  listing.present && match normalizeHostOrCIDR peerAddr, allowed.mapM normalizeHostOrCIDR with
    | some peer, some norm => validCidr.accepts peer && (norm = [] || validDestList.accepts ([','].intercalate norm))
    | _, _ => false

theorem commentFits_peerTag (p : Addr) : commentFits (peerTag p) = true := by
  have digits : ∀ n, (Text.decimal (n % 256)).length ≤ 3 := by
    intro n
    rw [Text.decimal_length_le_iff (by decide)]
    omega
  have short : (peerTag p).length ≤ 31 := by
    have first := digits (p.toNat / 16777216)
    have second := digits (p.toNat / 65536)
    have third := digits (p.toNat / 256)
    have fourth := digits p.toNat
    simp only [peerTag, addrText, octets, List.map_cons, List.map_nil, List.intercalate, List.intersperse,
      List.flatten_cons, List.flatten_nil, List.length_append, List.length_cons, List.length_nil]
    have fixed : tagPrefix.length = 16 := rfl
    omega
  have bytes : ((peerTag p).map Char.utf8Size).sum ≤ 4 * (peerTag p).length := by
    generalize peerTag p = t
    induction t with
    | nil => simp
    | cons c t ih =>
      have one := Char.utf8Size_le_four c
      simp only [List.map_cons, List.sum_cons, List.length_cons]
      omega
  rw [commentFits, decide_eq_true_eq]
  omega

/- What the packet filter makes of the verb's own words. -/
section
variable {p : Addr} {peer : Text} (named : readCidr peer = some (.host p)) (chain : List Rule)
include named

/-- One direction or the other. -/
theorem insertFirst_drop {flag : Text} {rule : Rule} (way : flag = Word.dashS ∧ rule = ownRule p (.host p) .any .drop ∨
    flag = Word.dashD ∧ rule = ownRule p .any (.host p) .drop) :
    insertFirst (dropArgs flag peer (peerTag p)) chain = (rule :: chain, true) := by
  have read : readRule (dropArgs flag peer (peerTag p)) = some rule := by
    rcases way with ⟨rfl, rfl⟩ | ⟨rfl, rfl⟩
    all_goals
      simp only [dropArgs, commentArgs, List.cons_append, List.nil_append, readRule, readOptions]
      simp (disch := decide) only [readOption_dashS, readOption_dashD, named, Option.map_some, Option.bind_some,
        readOption_dashJ, readOption_dashM, readOption_dashComment, commentFits_peerTag, if_true]
      rfl
  simp only [insertFirst, read]

theorem insertFirst_accept {flag flag' : Text} {rule : Cidr → Rule}
    (way : flag = Word.dashS ∧ flag' = Word.dashD ∧ (rule = fun x => ownRule p (.host p) x .accept) ∨
      flag = Word.dashD ∧ flag' = Word.dashS ∧ (rule = fun x => ownRule p x (.host p) .accept)) (dest : Text) :
    (insertFirst (acceptArgs flag peer flag' dest (peerTag p)) chain).1 = ((readCidr dest).map rule).toList ++ chain := by
  have read : readRule (acceptArgs flag peer flag' dest (peerTag p)) = (readCidr dest).map rule := by
    rcases way with ⟨rfl, rfl, rfl⟩ | ⟨rfl, rfl, rfl⟩
    all_goals
      simp only [acceptArgs, commentArgs, List.cons_append, List.nil_append, readRule, readOptions]
      simp (disch := decide) only [readOption_dashS, readOption_dashD, named, Option.map_some, Option.bind_some]
      cases readCidr dest with
      | none => rfl
      | some x =>
        simp (disch := decide) only [Option.map_some, Option.bind_some, readOption_dashJ, readOption_dashM,
          readOption_dashComment, commentFits_peerTag, if_true]
        rfl
  rw [insertFirst, read]
  cases readCidr dest <;> rfl

end

/-- The loop puts in what the packet filter reads; a destination it does not
read leaves no rule. -/
theorem insertAllows_eq {p : Addr} {peer : Text} (named : readCidr peer = some (.host p)) {dests : List Text}
    (valid : ∀ dest ∈ dests, validCidr.accepts dest = true) (s : List Rule × Bool) :
    (insertAllows peer (peerTag p) dests s).1 =
      (dests.filterMap readCidr).reverse.flatMap (allowPair p) ++ s.1 := by
  induction dests generalizing s with
  | nil => rfl
  | cons dest dests ih =>
    rw [List.forall_mem_cons] at valid
    unfold insertAllows
    rw [if_neg (by simp [valid.1]), ih valid.2, insertFirst_accept named _ (.inl ⟨rfl, rfl, rfl⟩),
      insertFirst_accept named _ (.inr ⟨rfl, rfl, rfl⟩)]
    cases read : readCidr dest with
    | none => simp [read]
    | some x => simp [read, allowPair]

def slash32 : Text := ['/', '3', '2']

theorem readCidr_slash32 (a : Text) (noSlash : '/' ∉ a) : readCidr (a ++ slash32) = readCidr a := by
  have one : a.splitOn '/' = [a] := List.splitOn_eq_singleton noSlash
  have two : (a ++ slash32).splitOn '/' = [a, ['3', '2']] := by
    have joined : a ++ slash32 = ['/'].intercalate [a, ['3', '2']] := by simp [List.intercalate, slash32]
    rw [joined]
    exact List.splitOn_intercalate '/' (by simp [noSlash]) (by simp)
  have whole : Text.readNumber ['3', '2'] = some 32 := by decide
  rw [readCidr, readCidr, one, two]
  cases read : readAddr a with
  | none => simp [read]
  | some addr => simp [read, whole, Cidr.host]

theorem normalize_noComma {a n : Text} (normal : normalizeHostOrCIDR a = some n) : ',' ∉ n ∧ n ≠ [] := by
  have text : ∀ a, validHostOrCIDR.accepts a = true → ',' ∉ a ∧ a ≠ [] := by
    intro a valid
    refine ⟨fun comma => ?_, ?_⟩
    · exact absurd (Regex.mem_alphabet (Regex.accepts_iff.mp valid) _ comma) (by decide)
    · rintro rfl
      revert valid
      decide
  unfold normalizeHostOrCIDR at normal
  split at normal
  · cases normal
  · rename_i valid
    obtain ⟨noComma, filled⟩ := text a (by simpa using valid)
    split at normal
    · cases Option.some.inj normal
      exact ⟨noComma, filled⟩
    · cases Option.some.inj normal
      simp [noComma]

/-- What is passed on is always an address with a length. -/
theorem normalize_valid {a n : Text} (normal : normalizeHostOrCIDR a = some n) : validCidr.accepts n = true := by
  unfold normalizeHostOrCIDR at normal
  split at normal
  · cases normal
  · rename_i valid
    have shape : validHostOrCIDR.accepts a = true := by simpa using valid
    obtain ⟨u, address, v, length, rfl⟩ := Regex.mem_mul.mp (Regex.accepts_iff.mp shape)
    have noSlash : '/' ∉ u := fun slash => absurd (Regex.mem_alphabet address _ slash) (by decide)
    rcases length with rfl | length
    · rw [List.append_nil, if_neg noSlash] at normal
      cases Option.some.inj normal
      have whole : ['/', '3', '2'] ∈ lengthPattern.matches' := Regex.accepts_iff.mp (by decide)
      exact Regex.accepts_iff.mpr (Regex.mem_mul.mpr ⟨u, address, _, whole, rfl⟩)
    · have slash : '/' ∈ u ++ v := by
        obtain ⟨w, rfl, n, -, rfl⟩ := Regex.mem_mul.mp length
        simp
      rw [if_pos slash] at normal
      cases Option.some.inj normal
      exact Regex.accepts_iff.mpr (Regex.mem_mul.mpr ⟨u, address, v, length, rfl⟩)

theorem normalize_read {a n : Text} (normal : normalizeHostOrCIDR a = some n) : readCidr n = readCidr a := by
  unfold normalizeHostOrCIDR at normal
  split at normal
  · cases normal
  · split at normal
    · cases Option.some.inj normal
      rfl
    · rename_i noSlash
      cases Option.some.inj normal
      exact readCidr_slash32 a noSlash

theorem normalize_peer {p : Addr} {peerAddr peer : Text}
    (names : peerAddr = addrText p ∨ peerAddr = addrText p ++ slash32)
    (normal : normalizeHostOrCIDR peerAddr = some peer) : peer = addrText p ++ slash32 := by
  unfold normalizeHostOrCIDR at normal
  split at normal
  · cases normal
  · rcases names with rfl | rfl
    · rw [if_neg (addrText_noSlash p)] at normal
      exact (Option.some.inj normal).symm
    · rw [if_pos (by simp [slash32])] at normal
      exact (Option.some.inj normal).symm

theorem readCidr_peer (p : Addr) : readCidr (addrText p ++ slash32) = some (.host p) := by
  rw [readCidr_slash32 _ (addrText_noSlash p), readCidr,
    List.splitOn_eq_singleton (addrText_noSlash p)]
  simp [readAddr_addrText]

/-- A list of destinations is read as before, and its parts stay apart. -/
theorem normalize_all {allowed norm : List Text} (normal : allowed.mapM normalizeHostOrCIDR = some norm) :
    norm.map readCidr = allowed.map readCidr ∧ (∀ n ∈ norm, ',' ∉ n ∧ n ≠ []) ∧
      ∀ n ∈ norm, validCidr.accepts n = true := by
  induction List.mapM_option_eq_some.mp normal with
  | nil => simp
  | @cons a n allowed norm head tail ih =>
    obtain ⟨same, apart, valid⟩ := ih (List.mapM_option_eq_some.mpr tail)
    exact ⟨by rw [List.map_cons, List.map_cons, normalize_read head, same],
      List.forall_mem_cons.mpr ⟨normalize_noComma head, apart⟩,
      List.forall_mem_cons.mpr ⟨normalize_valid head, valid⟩⟩

theorem fields_join {norm : List Text} (apart : ∀ n ∈ norm, ',' ∉ n ∧ n ≠ []) (filled : norm ≠ []) :
    Shell.fields ',' ([','].intercalate norm) = norm :=
  Shell.fields_intercalate (fun n member => (apart n member).1) (fun n member => (apart n member).2) filled

theorem join_ne_nil {norm : List Text} (apart : ∀ n ∈ norm, ',' ∉ n ∧ n ≠ []) (filled : norm ≠ []) :
    [','].intercalate norm ≠ [] := by
  intro empty
  have fields := fields_join apart filled
  rw [empty] at fields
  exact filled fields.symm

theorem callBlock_congr {p : Addr} {norm allowed : List Text} (same : norm.map readCidr = allowed.map readCidr) :
    callBlock p norm = callBlock p allowed := by
  have empty : norm = [] ↔ allowed = [] := by
    rw [← List.map_eq_nil_iff, same, List.map_eq_nil_iff]
  have read : norm.filterMap readCidr = allowed.filterMap readCidr := by
    have merged := congrArg (List.filterMap id) same
    rwa [List.filterMap_map, List.filterMap_map] at merged
  unfold callBlock
  rw [read]
  exact if_congr empty rfl rfl

section
variable {listing : Listing} {other : Text → List Rule → List Rule} {p : Addr} {peerAddr : Text}
  {allowed : List Text} {chain : List Rule}

/-- The verb itself. -/
theorem cmdPeerForwardRules_eq {norm : List Text} (present : listing.present = true)
    (apart : ∀ n ∈ norm, ',' ∉ n ∧ n ≠ []) (valid : ∀ n ∈ norm, validCidr.accepts n = true) :
    (cmdPeerForwardRules listing other (addrText p ++ slash32) ([','].intercalate norm) chain).1 =
      callBlock p norm ++ deletePass listing other (peerTag p) chain := by
  have tag : tagPrefix ++ Shell.beforeLast '/' (addrText p ++ slash32) = peerTag p := by
    rw [slash32, Shell.beforeLast_append (by decide)]
    rfl
  unfold cmdPeerForwardRules callBlock
  rw [tag, if_neg (by simp [present])]
  by_cases none' : norm = []
  · subst none'
    rfl
  · simp only [if_neg (join_ne_nil apart none'), if_neg none', fields_join apart none']
    rw [insertAllows_eq (readCidr_peer p) valid, insertFirst_drop (readCidr_peer p) _ (.inr ⟨rfl, rfl⟩),
      insertFirst_drop (readCidr_peer p) _ (.inl ⟨rfl, rfl⟩)]
    simp [fence, dropPair]

/-- A call that is not taken changes nothing and reports it. -/
theorem setPeerForwardRules_refused (refused : taken listing peerAddr allowed = false) :
    setPeerForwardRules listing other peerAddr allowed chain = (chain, false) := by
  unfold taken at refused
  unfold setPeerForwardRules
  split
  · rename_i peer norm normalPeer normal
    rw [normalPeer, normal] at refused
    unfold mainPeerForwardRules
    split
    · rfl
    · rename_i validPeer
      split
      · rfl
      · rename_i validList
        have absent : listing.present = false := by
          by_contra present
          simp only [Bool.not_eq_true', Bool.not_eq_false] at present validPeer
          simp only [present, validPeer, Bool.true_and, Bool.or_eq_false_iff, decide_eq_false_iff_not] at refused
          exact validList ⟨join_ne_nil (normalize_all normal).2.1 refused.1, by simp [refused.2]⟩
        simp [cmdPeerForwardRules, absent]
  · rfl

/-- A taken call puts the peer's block before what its delete pass left. -/
theorem setPeerForwardRules_taken (names : peerAddr = addrText p ∨ peerAddr = addrText p ++ slash32)
    (accepted : taken listing peerAddr allowed = true) :
    (setPeerForwardRules listing other peerAddr allowed chain).1 =
      callBlock p allowed ++ deletePass listing other (peerTag p) chain := by
  unfold taken at accepted
  unfold setPeerForwardRules
  cases normalPeer : normalizeHostOrCIDR peerAddr with
  | none => simp [normalPeer] at accepted
  | some peer =>
    cases normal : allowed.mapM normalizeHostOrCIDR with
    | none => simp [normalPeer, normal] at accepted
    | some norm =>
      simp only [normalPeer, normal, Bool.and_eq_true, Bool.or_eq_true, decide_eq_true_eq] at accepted ⊢
      obtain ⟨present, validPeer, validList⟩ := accepted
      have peerText := normalize_peer names normalPeer
      subst peerText
      obtain ⟨readNorm, apart, valid⟩ := normalize_all normal
      have checked : ¬([','].intercalate norm ≠ [] ∧ (!validDestList.accepts ([','].intercalate norm)) = true) := by
        rintro ⟨filled, invalid⟩
        rcases validList with rfl | valid
        · exact filled rfl
        · simp [valid] at invalid
      rw [mainPeerForwardRules, if_neg (by simp [validPeer]), if_neg checked,
        cmdPeerForwardRules_eq present apart valid, callBlock_congr readNorm]

end

end Protean.PeerForward
