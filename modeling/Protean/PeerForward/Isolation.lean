import Protean.Netfilter.Ruleset
import Protean.PeerForward.Exact
import Protean.Run

open Netfilter

namespace Protean.PeerForward

/-- A call for the address of a peer. -/
structure Call where
  peer : Addr
  peerAddr : Text
  allowed : List Text
  names : peerAddr = addrText peer ∨ peerAddr = addrText peer ++ slash32

namespace Call

def taken (listing : Listing) (c : Call) : Bool := PeerForward.taken listing c.peerAddr c.allowed

def step (listing : Listing) (other : Text → List Rule → List Rule) (chain : List Rule) (c : Call) : List Rule :=
  (setPeerForwardRules listing other c.peerAddr c.allowed chain).1

/-- The delete pass removes exactly the rules of its own peer. -/
def DeletesOwn (listing : Listing) (other : Text → List Rule → List Rule) (chain : List Rule) (c : Call) : Prop :=
  deletePass listing other (peerTag c.peer) chain = chain.filter fun r => !decide (Tagged c.peer r)

/-- A sync, when it removes what it should. -/
def resync (chain : List Rule) (c : Call) : List Rule :=
  callBlock c.peer c.allowed ++ chain.filter fun r => !decide (Tagged c.peer r)

end Call

/-- The addresses a list of destinations stands for. -/
def covers (allowed : List Text) (a : Addr) : Bool := (allowed.filterMap readCidr).any (·.contains a)

/-- A packet with one end at `p` and the other at `o`. -/
def Between (p o : Addr) (pkt : Packet) : Prop := pkt.src = p ∧ pkt.dst = o ∨ pkt.dst = p ∧ pkt.src = o

/-- The last call for a peer. -/
def lastCall (calls : List Call) (q : Addr) : Option Call := (calls.filter (·.peer = q)).getLast?

theorem lastCall_mem {calls : List Call} {q : Addr} {c : Call} (last : lastCall calls q = some c) :
    c ∈ calls ∧ c.peer = q := by
  have member := List.mem_filter.mp (List.mem_of_getLast? last)
  exact ⟨member.1, of_decide_eq_true member.2⟩

theorem Between.symm {p o : Addr} {pkt : Packet} (between : Between p o pkt) : Between o p pkt := by
  rcases between with ⟨src, dst⟩ | ⟨dst, src⟩
  · exact .inr ⟨dst, src⟩
  · exact .inl ⟨src, dst⟩

/-- Nothing gets through between a peer and an address outside its list. -/
def Isolated (p : Addr) (allowed : List Text) (chain : List Rule) : Prop :=
  ∀ (ext : Ext) (depth : Nat) (t : Table) (pkt : Packet) (o : Addr), (t.builtin .forward).rules = chain →
    Between p o pkt → covers allowed o = false → t.verdict ext depth .forward pkt ≠ .accept

/- The rules of one peer. -/
section
variable {p q : Addr} {src dst : Cidr} {target : Target} {r : Rule} {dests : List Cidr} {allowed : List Text}

@[simp] theorem ownRule_hits (ext : Ext) (pkt : Packet) :
    (ownRule p src dst target).hits ext pkt = (src.contains pkt.src && dst.contains pkt.dst) := by
  simp [ownRule, Rule.hits, Module.hits]

theorem peerTag_injective : Function.Injective peerTag := by
  intro p q same
  exact addrText_injective (List.append_cancel_left same)

@[simp] theorem tagged_ownRule : Tagged q (ownRule p src dst target) ↔ q = p := by
  simp only [Tagged, ownRule, List.mem_singleton, Module.comment.injEq]
  exact peerTag_injective.eq_iff

theorem ownRule_of_mem_fence (member : r ∈ fence p dests) :
    ∃ src dst target, r = ownRule p src dst target ∧ (src = .host p ∨ dst = .host p) := by
  rcases List.mem_append.mp member with allow | drops
  · obtain ⟨x, -, inside⟩ := List.mem_flatMap.mp allow
    rcases List.mem_pair.mp inside with rfl | rfl
    · exact ⟨_, _, _, rfl, .inl rfl⟩
    · exact ⟨_, _, _, rfl, .inr rfl⟩
  · rcases List.mem_pair.mp drops with rfl | rfl
    · exact ⟨_, _, _, rfl, .inl rfl⟩
    · exact ⟨_, _, _, rfl, .inr rfl⟩

theorem ownRule_of_mem_callBlock (member : r ∈ callBlock p allowed) :
    ∃ src dst target, r = ownRule p src dst target ∧ (src = .host p ∨ dst = .host p) := by
  unfold callBlock at member
  split at member
  · cases member
  · exact ownRule_of_mem_fence member

theorem tagged_callBlock (member : r ∈ callBlock p allowed) : Tagged q r ↔ q = p := by
  obtain ⟨src, dst, target, rfl, -⟩ := ownRule_of_mem_callBlock member
  exact tagged_ownRule

/-- A restriction decides every packet of its peer. -/
theorem traverse_fence {ext : Ext} {call : Text → Packet → Option Verdict} {pkt : Packet} {o : Addr}
    (between : Between p o pkt) (rest : List Rule) :
    traverse ext call pkt (fence p dests ++ rest) =
      some (if dests.any (·.contains o) then .accept else .drop) := by
  have accepts : ∀ r ∈ dests.reverse.flatMap (allowPair p), r.target = some .accept := by
    intro r member
    obtain ⟨x, -, inside⟩ := List.mem_flatMap.mp member
    rcases List.mem_pair.mp inside with rfl | rfl <;> rfl
  have open' : (dests.reverse.flatMap (allowPair p)).any (·.hits ext pkt) = dests.any (·.contains o) := by
    have pair : ∀ x, (allowPair p x).any (·.hits ext pkt) = x.contains o := by
      intro x
      rcases between with ⟨rfl, rfl⟩ | ⟨rfl, rfl⟩
      · by_cases same : pkt.dst = pkt.src <;> simp [allowPair, same]
      · by_cases same : pkt.src = pkt.dst <;> simp [allowPair, same]
    rw [List.any_flatMap, List.any_reverse]
    simp only [pair]
  rw [fence, List.append_assoc, traverse_accepts accepts, open']
  split
  · rfl
  · rcases between with ⟨rfl, rfl⟩ | ⟨rfl, rfl⟩
    · exact traverse_stop rfl (by simp)
    · by_cases same : pkt.src = pkt.dst
      · exact traverse_stop rfl (by simp [same])
      · rw [dropPair, List.cons_append, traverse_skip (by simp [same])]
        exact traverse_stop rfl (by simp)

end

/- What a run of syncs leaves. -/
section
variable {listing : Listing} {other : Text → List Rule → List Rule} {chain : List Rule} {p o : Addr} {calls : List Call}

theorem step_eq {c : Call} (own : c.taken listing = true → c.DeletesOwn listing other chain) :
    Call.step listing other chain c = if c.taken listing then Call.resync chain c else chain := by
  unfold Call.step
  split
  · rename_i accepted
    rw [setPeerForwardRules_taken c.names accepted, own accepted, Call.resync]
  · rename_i refused
    rw [setPeerForwardRules_refused (Bool.not_eq_true _ ▸ refused)]

/-- A call that is not taken may as well not have been made. -/
theorem after_step_eq
    (own : Run.Meets (Call.step listing other) (fun chain c => c.taken listing = true → c.DeletesOwn listing other chain)
      chain calls) :
    Run.after (Call.step listing other) chain calls = Run.after Call.resync chain (calls.filter (·.taken listing)) := by
  induction calls generalizing chain with
  | nil => rfl
  | cons c calls ih =>
    rw [Run.after_cons, ih own.2, step_eq own.1]
    cases accepted : c.taken listing with
    | true => rw [List.filter_cons_of_pos accepted, Run.after_cons, if_pos rfl]
    | false => rw [List.filter_cons_of_neg (by simp [accepted]), if_neg (by simp)]

/-- What was there before stays below the new rules, but for the peers' own. -/
theorem after_resync_append (above below : List Rule) :
    Run.after Call.resync (above ++ below) calls =
      Run.after Call.resync above calls ++ below.filter fun r => calls.all fun c => !decide (Tagged c.peer r) := by
  induction calls generalizing above below with
  | nil => simp
  | cons c calls ih =>
    have one : Call.resync (above ++ below) c =
        Call.resync above c ++ below.filter fun r => !decide (Tagged c.peer r) := by
      simp [Call.resync]
    rw [Run.after_cons, one, ih, Run.after_cons, List.filter_filter]
    refine congrArg _ (List.filter_congr fun r _ => ?_)
    rw [List.all_cons, Bool.and_comm]

theorem after_resync_own {r : Rule} (member : r ∈ Run.after Call.resync [] calls) :
    ∃ c ∈ calls, r ∈ callBlock c.peer c.allowed := by
  induction calls using List.reverseRecOn with
  | nil => cases member
  | append_singleton calls c ih =>
    rw [Run.after_concat] at member
    rcases List.mem_append.mp member with new | old
    · exact ⟨c, by simp, new⟩
    · obtain ⟨d, earlier, inside⟩ := ih (List.mem_filter.mp old).1
      exact ⟨d, List.mem_append_left _ earlier, inside⟩

/-- Of one peer's rules, those of its last call stand. -/
theorem filter_after_resync :
    ((Run.after Call.resync [] calls).filter fun r => decide (Tagged o r)) =
      ((lastCall calls o).map fun c => callBlock o c.allowed).getD [] := by
  induction calls using List.reverseRecOn with
  | nil => rfl
  | append_singleton calls c ih =>
    rw [Run.after_concat, Call.resync, List.filter_append, List.filter_filter]
    by_cases own : c.peer = o
    · have all : ((callBlock c.peer c.allowed).filter fun r => decide (Tagged o r)) = callBlock c.peer c.allowed :=
        List.filter_eq_self.mpr fun r member => by simp [tagged_callBlock member, own]
      have last : lastCall (calls ++ [c]) o = some c := by simp [lastCall, own]
      rw [all, last, own]
      simp
    · have none' : ((callBlock c.peer c.allowed).filter fun r => decide (Tagged o r)) = [] :=
        List.filter_eq_nil_iff.mpr fun r member => by
          simpa [tagged_callBlock member] using Ne.symm own
      have last : lastCall (calls ++ [c]) o = lastCall calls o := by simp [lastCall, own]
      rw [none', List.nil_append, last, ← ih]
      refine List.filter_congr fun r member => ?_
      obtain ⟨d, -, inside⟩ := after_resync_own member
      simp only [tagged_callBlock inside]
      by_cases same : o = d.peer
      · simp [← same, own]
      · simp [same]

/-- Between a restricted peer and another address, whoever of the two was
restricted last decides. -/
theorem traverse_after_resync {ext : Ext} {call : Text → Packet → Option Verdict} {pkt : Packet} {first : Call}
    (restricted : first.allowed ≠ []) (others : ∀ c ∈ calls, c.peer ≠ first.peer)
    (between : Between first.peer o pkt) :
    traverse ext call pkt (Run.after Call.resync chain (first :: calls)) = some
      (if (match lastCall calls o with
        | some c => if c.allowed = [] then covers first.allowed o else covers c.allowed first.peer
        | none => covers first.allowed o) then .accept else .drop) := by
  have block : callBlock first.peer first.allowed = fence first.peer (first.allowed.filterMap readCidr) := by
    rw [callBlock, if_neg restricted]
  have kept : ((fence first.peer (first.allowed.filterMap readCidr)).filter fun r =>
      calls.all fun c => !decide (Tagged c.peer r)) = fence first.peer (first.allowed.filterMap readCidr) := by
    refine List.filter_eq_self.mpr fun r member => ?_
    obtain ⟨src, dst, target, rfl, -⟩ := ownRule_of_mem_fence member
    simpa using others
  have idle : ∀ r ∈ Run.after Call.resync [] calls, decide (Tagged o r) = false → r.hits ext pkt = false := by
    intro r member foreign
    obtain ⟨c, later, inside⟩ := after_resync_own member
    have apart := others c later
    have ends : pkt.src ≠ c.peer ∧ pkt.dst ≠ c.peer := by
      rw [decide_eq_false_iff_not, tagged_callBlock inside] at foreign
      rcases between with ⟨src, dst⟩ | ⟨dst, src⟩
      · rw [src, dst]
        exact ⟨apart.symm, foreign⟩
      · rw [src, dst]
        exact ⟨foreign, apart.symm⟩
    obtain ⟨src, dst, target, rfl, rfl | rfl⟩ := ownRule_of_mem_callBlock inside
    · simp [ends.1]
    · simp [ends.2]
  rw [Run.after_cons, Call.resync, ← List.nil_append (_ ++ _), after_resync_append, List.filter_append, block, kept,
    traverse_filter idle, filter_after_resync]
  cases lastCall calls o with
  | none => exact traverse_fence between _
  | some c =>
    by_cases free : c.allowed = []
    · simp only [Option.map_some, Option.getD_some, callBlock, if_pos free]
      exact traverse_fence between _
    · simp only [Option.map_some, Option.getD_some, callBlock, if_neg free]
      exact traverse_fence between.symm _

end

/-- A restricted peer stays cut off from what its list leaves out exactly as
long as no peer outside the list is restricted after it to a list with the
peer in it. -/
theorem peer_isolation_iff (listing : Listing) (other : Text → List Rule → List Rule) (chain : List Rule)
    (first : Call) (later : List Call) (accepted : first.taken listing = true) (restricted : first.allowed ≠ [])
    (others : ∀ c ∈ later, c.peer ≠ first.peer)
    (own : Run.Meets (Call.step listing other) (fun chain c => c.taken listing = true → c.DeletesOwn listing other chain)
      chain (first :: later)) :
    Isolated first.peer first.allowed (Run.after (Call.step listing other) chain (first :: later)) ↔
      ∀ q c, lastCall (later.filter (·.taken listing)) q = some c → covers c.allowed first.peer = true →
        covers first.allowed q = true := by
  have others' : ∀ c ∈ later.filter (·.taken listing), c.peer ≠ first.peer := fun c member =>
    others c (List.mem_filter.mp member).1
  rw [after_step_eq own, List.filter_cons_of_pos accepted]
  constructor
  · intro isolated q c last listed
    by_contra outside
    let pkt : Packet := ⟨[], [], .udp, first.peer, q, 0, 0, .new⟩
    have between : Between first.peer q pkt := .inl ⟨rfl, rfl⟩
    let t : Table :=
      ⟨fun _ => ⟨.drop, Run.after Call.resync chain (first :: later.filter (·.taken listing))⟩, fun _ => none⟩
    have restrictedLater : c.allowed ≠ [] := by
      intro free
      rw [free] at listed
      cases listed
    refine isolated ⟨fun _ _ _ => false, fun _ _ => none⟩ 0 t pkt q rfl between (by simpa using outside) ?_
    rw [Table.verdict, traverse_after_resync restricted others' between, last]
    simp [restrictedLater, listed]
  · intro safe ext depth t pkt o rules between outside
    rw [Table.verdict, rules, traverse_after_resync restricted others' between]
    cases last : lastCall (later.filter (·.taken listing)) o with
    | none => simp [outside]
    | some c =>
      have unlisted : covers c.allowed first.peer = false := by
        by_contra listed
        rw [safe o c last (by simpa using listed)] at outside
        cases outside
      simp [outside, unlisted]

/-- Calls that find clean chains delete what is their peer's. -/
theorem meets_deletesOwn {listing : Listing} (documented : listing.Documented) {other : Text → List Rule → List Rule}
    {chain : List Rule} {calls : List Call} (accepted : ∀ c ∈ calls, c.taken listing = true)
    (clean : Run.Meets Call.resync (fun chain c => Clean listing c.peer chain) chain calls) :
    Run.Meets (Call.step listing other) (fun chain c => c.taken listing = true → c.DeletesOwn listing other chain)
      chain calls := by
  induction calls generalizing chain with
  | nil => trivial
  | cons c calls ih =>
    rw [List.forall_mem_cons] at accepted
    have own : c.DeletesOwn listing other chain := deletePass_of_clean documented clean.1
    refine ⟨fun _ => own, ?_⟩
    rw [step_eq fun _ => own, if_pos accepted.1]
    exact ih accepted.2 clean.2

/-- A call for `10.0.0.1`. -/
def firstCall (allowed : List Text) : Call := ⟨addrOf 10 0 0 1, "10.0.0.1".toList, allowed, .inl (by decide)⟩

/-- A call for `10.0.0.2`. -/
def secondCall (allowed : List Text) : Call := ⟨addrOf 10 0 0 2, "10.0.0.2/32".toList, allowed, .inr (by decide)⟩

/-- Two peers that list each other. -/
theorem peer_isolation_iff_sample :
    Isolated (addrOf 10 0 0 1) ["10.0.0.2".toList, "10.9.0.0/24".toList]
        (Run.after (Call.step plainListing fun _ c => c) sampleChain
          [firstCall ["10.0.0.2".toList, "10.9.0.0/24".toList], secondCall ["10.0.0.1".toList]]) ∧
      covers ["10.0.0.2".toList, "10.9.0.0/24".toList] (addrOf 10 9 1 0) = false := by
  refine ⟨?_, by decide +kernel⟩
  refine (peer_isolation_iff plainListing (fun _ c => c) sampleChain
    (firstCall ["10.0.0.2".toList, "10.9.0.0/24".toList]) [secondCall ["10.0.0.1".toList]] (by decide +kernel)
    (by decide) (by simp [firstCall, secondCall]; decide)
    (meets_deletesOwn plainListing_documented (by decide +kernel)
      ⟨by unfold Clean; decide +kernel, by unfold Clean; decide +kernel, trivial⟩)).mpr ?_
  intro q c last listed
  obtain ⟨member, rfl⟩ := lastCall_mem last
  cases List.mem_singleton.mp (List.mem_filter.mp member).1
  decide +kernel

/-- A peer that is restricted later, to a network that the first peer is in,
gets through to the first peer. -/
theorem later_peer_opens_fence :
    Run.Meets (Call.step plainListing fun _ c => c) (Call.DeletesOwn plainListing fun _ c => c) []
        [firstCall ["10.9.0.0/24".toList], secondCall ["10.0.0.0/24".toList]] ∧
      covers ["10.9.0.0/24".toList] (addrOf 10 0 0 2) = false ∧
      ∀ ext, Table.verdict ext 0
        ⟨fun _ => ⟨.drop, Run.after (Call.step plainListing fun _ c => c) []
          [firstCall ["10.9.0.0/24".toList], secondCall ["10.0.0.0/24".toList]]⟩, fun _ => none⟩ .forward
        ⟨[], [], .udp, addrOf 10 0 0 2, addrOf 10 0 0 1, 0, 0, .new⟩ = .accept := by
  have own : Run.Meets (Call.step plainListing fun _ c => c)
      (fun chain c => c.taken plainListing = true → c.DeletesOwn plainListing (fun _ c => c) chain) []
      [firstCall ["10.9.0.0/24".toList], secondCall ["10.0.0.0/24".toList]] :=
    meets_deletesOwn plainListing_documented (by decide +kernel)
      ⟨by unfold Clean; decide +kernel, by unfold Clean; decide +kernel, trivial⟩
  refine ⟨⟨own.1 (by decide +kernel), own.2.1 (by decide +kernel), trivial⟩, by decide +kernel, ?_⟩
  · intro ext
    rfl

end Protean.PeerForward
