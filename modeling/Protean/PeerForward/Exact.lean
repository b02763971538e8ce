import Protean.PeerForward.Effect
import Protean.PeerForward.Listing

open Netfilter

namespace Protean.PeerForward

/-- The rules a sync leaves at the head of the chain. -/
def peerBlock (p : Addr) (dests : List Cidr) : List Rule := if dests = [] then [] else fence p dests

/-- What a sync is for: the peer's old rules are gone, all others stand as they
were, and the peer's new rules come before them. -/
def Synced (p : Addr) (allowed : List Text) (chain after : List Rule) : Prop :=
  ∃ dests : List Cidr, allowed.map readCidr = dests.map some ∧
    after = peerBlock p dests ++ chain.filter fun r => !decide (Tagged p r)

section
variable {listing : Listing} {other : Text → List Rule → List Rule} {p : Addr} {chain : List Rule}

theorem peerTag_tagChar (p : Addr) : ∀ c ∈ peerTag p, tagChar c := by
  intro c member
  rcases List.mem_append.mp member with fixed | address
  · have all : ∀ c ∈ tagPrefix, tagChar c := by decide
    exact all c fixed
  · rcases addrText_chars p c address with digit | rfl
    · simp [tagChar, Char.isAlphanum, digit]
    · decide

/-- Every rule whose printed line holds the tag is the peer's own, and the
shell only splits that line into words. -/
def Clean (listing : Listing) (p : Addr) (chain : List Rule) : Prop :=
  ∀ r ∈ chain, peerTag p <:+: listing.spec r →
    Tagged p r ∧ (Shell.plainWords false none (listing.spec r)).isSome

theorem deletePass_of_clean (documented : listing.Documented) (clean : Clean listing p chain) :
    deletePass listing other (peerTag p) chain = chain.filter fun r => !decide (Tagged p r) := by
  have found : taggedSpecs listing (peerTag p) chain =
      (chain.filter fun r => decide (Tagged p r)).map listing.spec := by
    rw [taggedSpecs, List.filter_map]
    refine congrArg _ (List.filter_congr fun r member => ?_)
    refine decide_eq_decide.mpr ⟨fun holds => (clean r member holds).1, fun tagged => ?_⟩
    exact documented.verbatim r _ tagged (peerTag_tagChar p)
  have each : ∀ (rs rest : List Rule), (∀ r ∈ rs, r ∈ chain ∧ Tagged p r) →
      (rs.map listing.spec).foldl (evalDelete listing other) rest = rs.foldl List.erase rest := by
    intro rs
    induction rs with
    | nil => intro rest _; rfl
    | cons r rs ih =>
      intro rest own
      rw [List.forall_mem_cons] at own
      obtain ⟨⟨member, tagged⟩, own⟩ := own
      have printed := documented.verbatim r _ tagged (peerTag_tagChar p)
      obtain ⟨words, split⟩ := Option.isSome_iff_exists.mp (clean r member printed).2
      have deleted : evalDelete listing other rest (listing.spec r) = rest.erase r := by
        simp only [evalDelete, split, documented.readBack r words split]
      rw [List.map_cons, List.foldl_cons, deleted, List.foldl_cons, ih _ own]
  rw [deletePass, found, each _ _ ?_, List.foldl_erase_filter]
  intro r member
  obtain ⟨inside, tagged⟩ := List.mem_filter.mp member
  exact ⟨inside, of_decide_eq_true tagged⟩

/-- Each step of the delete pass takes at most one rule away. -/
theorem length_foldl_evalDelete {specs : List Text} (grows : ∀ spec c, List.length c ≤ (other spec c).length)
    (c : List Rule) : c.length ≤ (specs.foldl (evalDelete listing other) c).length + specs.length := by
  induction specs generalizing c with
  | nil => simp
  | cons spec specs ih =>
    have step : c.length ≤ (evalDelete listing other c spec).length + 1 := by
      unfold evalDelete
      split
      · have grown := grows spec c
        omega
      · split
        · omega
        · rw [List.length_erase]
          split <;> omega
    have later := ih (evalDelete listing other c spec)
    rw [List.foldl_cons, List.length_cons]
    omega

theorem count_foldl_evalDelete (r : Rule) {specs : List Text} (c : List Rule) :
    (specs.foldl (evalDelete listing fun _ c => c) c).count r ≤ c.count r := by
  induction specs generalizing c with
  | nil => exact Nat.le_refl _
  | cons spec specs ih =>
    have step : (evalDelete listing (fun _ c => c) c spec).count r ≤ c.count r := by
      unfold evalDelete
      split
      · exact Nat.le_refl _
      · split
        · exact Nat.le_refl _
        · exact List.erase_sublist.count_le r
    exact (ih _).trans step

theorem length_taggedSpecs_le {tag : Text} : (taggedSpecs listing tag chain).length ≤ chain.length := by
  have kept := List.length_filter_le (fun spec => decide (tag <:+: spec)) (chain.map listing.spec)
  rw [List.length_map] at kept
  exact kept

/-- Whatever the shell does with other lines, only a clean chain loses exactly
the peer's rules. -/
theorem clean_of_deletePass (documented : listing.Documented)
    (exact : ∀ other, deletePass listing other (peerTag p) chain = chain.filter fun r => !decide (Tagged p r)) :
    Clean listing p chain := by
  intro r member printed
  have found : listing.spec r ∈ taggedSpecs listing (peerTag p) chain :=
    List.mem_filter.mpr ⟨List.mem_map_of_mem member, decide_eq_true printed⟩
  obtain ⟨before, after, split⟩ := List.append_of_mem found
  have plain : (Shell.plainWords false none (listing.spec r)).isSome := by
    by_contra odd
    rw [Option.not_isSome_iff_eq_none] at odd
    -- a line that is left open may make the chain longer than it was
    let padded : Text → List Rule → List Rule := fun _ c => c ++ List.replicate (chain.length + 1) r
    have grows : ∀ spec c, List.length c ≤ (padded spec c).length := by
      intro spec c
      simp [padded]
    have long := exact padded
    rw [deletePass, split, List.foldl_append, List.foldl_cons] at long
    have early : chain.length ≤ (before.foldl (evalDelete listing padded) chain).length + before.length :=
      length_foldl_evalDelete grows chain
    have late : (evalDelete listing padded (before.foldl (evalDelete listing padded) chain) (listing.spec r)).length ≤
        (after.foldl (evalDelete listing padded) _).length + after.length := length_foldl_evalDelete grows _
    rw [long] at late
    simp only [evalDelete, odd, padded, List.length_append, List.length_replicate] at late
    have shorter := List.length_filter_le (fun r => !decide (Tagged p r)) chain
    have fewer : (taggedSpecs listing (peerTag p) chain).length ≤ chain.length := length_taggedSpecs_le
    rw [split, List.length_append, List.length_cons] at fewer
    simp only [padded] at early
    omega
  refine ⟨?_, plain⟩
  by_contra untagged
  obtain ⟨words, read⟩ := Option.isSome_iff_exists.mp plain
  -- the peer's line names this rule, and one copy of it goes
  have same := congrArg (List.count r) (exact fun _ c => c)
  rw [deletePass, split, List.foldl_append, List.foldl_cons,
    List.count_filter (by simp [untagged])] at same
  have early : (before.foldl (evalDelete listing fun _ c => c) chain).count r ≤ chain.count r :=
    count_foldl_evalDelete r chain
  have late : (after.foldl (evalDelete listing fun _ c => c) (evalDelete listing (fun _ c => c)
      (before.foldl (evalDelete listing fun _ c => c) chain) (listing.spec r))).count r ≤ _ :=
    count_foldl_evalDelete r _
  rw [same] at late
  simp only [evalDelete, read, documented.readBack r words read, List.count_erase_self] at late
  have present := List.count_pos_iff.mpr member
  omega

end

theorem callBlock_eq {p : Addr} {allowed : List Text} {xs : List Cidr} (read : allowed.map readCidr = xs.map some) :
    callBlock p allowed = peerBlock p xs := by
  have empty : allowed = [] ↔ xs = [] := by
    rw [← List.map_eq_nil_iff, read, List.map_eq_nil_iff]
  have merged := congrArg (List.filterMap id) read
  rw [List.filterMap_map, List.filterMap_map] at merged
  have same : allowed.filterMap readCidr = xs := merged.trans List.filterMap_some
  unfold callBlock peerBlock
  rw [same]
  exact if_congr empty rfl rfl

/-- A taken sync changes its own peer's rules and nothing else exactly when the
chain is clean for the peer and every destination is one the packet filter
reads. -/
theorem peer_sync_exact_iff (listing : Listing) (documented : listing.Documented) (p : Addr) (peerAddr : Text)
    (names : peerAddr = addrText p ∨ peerAddr = addrText p ++ slash32) (allowed : List Text) (chain : List Rule)
    (accepted : taken listing peerAddr allowed = true) :
    (∀ other, Synced p allowed chain (setPeerForwardRules listing other peerAddr allowed chain).1) ↔
      Clean listing p chain ∧ ∀ dest ∈ allowed, (readCidr dest).isSome := by
  constructor
  · intro synced
    obtain ⟨xs, read, -⟩ := synced fun _ c => c
    refine ⟨clean_of_deletePass documented fun other => ?_, fun dest member => ?_⟩
    · obtain ⟨ys, readYs, result⟩ := synced other
      have same : xs = ys := by
        have both := read.symm.trans readYs
        exact List.map_injective_iff.mpr (Option.some_injective _) both
      subst same
      rw [setPeerForwardRules_taken names accepted, callBlock_eq read] at result
      exact List.append_cancel_left result
    · have inside : readCidr dest ∈ xs.map some := by
        rw [← read]
        exact List.mem_map_of_mem member
      obtain ⟨x, -, same⟩ := List.mem_map.mp inside
      rw [← same]
      rfl
  · rintro ⟨clean, readable⟩ other
    obtain ⟨xs, read⟩ := List.exists_map_some readable
    refine ⟨xs, read, ?_⟩
    rw [setPeerForwardRules_taken names accepted, callBlock_eq read, deletePass_of_clean documented clean]

/-- A host's own rule, an older block of the peer and the block of another. -/
def sampleChain : List Rule :=
  [{ src := .mk' (addrOf 10 8 0 0) 24 (by decide), modules := [.comment "protean-mesh".toList], target := some .accept }] ++
    peerBlock (addrOf 10 0 0 1) [.host (addrOf 10 9 0 1)] ++
    peerBlock (addrOf 10 0 0 2) [.mk' (addrOf 10 1 0 0) 16 (by decide)]

/-- Peers whose addresses do not continue one another's digits are kept apart. -/
theorem peer_sync_exact_iff_sample :
    Clean plainListing (addrOf 10 0 0 1) sampleChain ∧
      ∀ other, Synced (addrOf 10 0 0 1) ["10.2.0.0/16".toList, "10.3.0.7".toList] sampleChain
        (setPeerForwardRules plainListing other "10.0.0.1".toList ["10.2.0.0/16".toList, "10.3.0.7".toList]
          sampleChain).1 := by
  have clean : Clean plainListing (addrOf 10 0 0 1) sampleChain := by
    unfold Clean
    decide +kernel
  exact ⟨clean, (peer_sync_exact_iff plainListing plainListing_documented (addrOf 10 0 0 1) "10.0.0.1".toList
    (.inl (by decide +kernel)) ["10.2.0.0/16".toList, "10.3.0.7".toList] sampleChain
    (by decide +kernel)).mpr ⟨clean, by decide +kernel⟩⟩

/-- A sync of `10.0.0.1` takes the rules of `10.0.0.10` with it: their lines
contain the tag. -/
theorem sync_deletes_other_peer :
    let chain := peerBlock (addrOf 10 0 0 10) [.mk' (addrOf 10 1 0 0) 16 (by decide)]
    (setPeerForwardRules plainListing (fun _ c => c) "10.0.0.1".toList [] chain) = ([], true) ∧
      ∀ r ∈ chain, ¬Tagged (addrOf 10 0 0 1) r := by
  decide +kernel

end Protean.PeerForward
