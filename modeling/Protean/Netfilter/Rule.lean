import Protean.Text

namespace Netfilter

abbrev Addr := BitVec 32
abbrev Port := BitVec 16

inductive Proto
  | tcp
  | udp
  | other (number : Nat)
  deriving DecidableEq, Repr

inductive CtState
  | new
  | established
  | related
  | invalid
  | untracked
  deriving DecidableEq, Repr

/-- What a rule can see of an IPv4 packet. The ports only mean something for
the protocols that have them. -/
structure Packet where
  inIface : Text
  outIface : Text
  proto : Proto
  src : Addr
  dst : Addr
  sport : Port
  dport : Port
  state : CtState
  deriving DecidableEq, Repr

def mask (len : Nat) : Addr := BitVec.allOnes 32 <<< (32 - len)

/-- A network as the filter keeps it: the host bits are cleared on entry. -/
structure Cidr where
  addr : Addr
  len : Nat
  bounded : len ≤ 32
  masked : addr &&& mask len = addr
  deriving DecidableEq, Repr

namespace Cidr

def mk' (addr : Addr) (len : Nat) (bounded : len ≤ 32) : Cidr :=
  ⟨addr &&& mask len, len, bounded, by rw [BitVec.and_assoc, BitVec.and_self]⟩

def any : Cidr := mk' 0 0 (by decide)

def host (a : Addr) : Cidr := mk' a 32 (by decide)

def contains (c : Cidr) (a : Addr) : Bool := a &&& mask c.len == c.addr

@[simp] theorem any_contains (a : Addr) : any.contains a = true := by
  have none : mask 0 = 0 := by decide
  simp [any, mk', contains, none]

@[simp] theorem host_contains (a b : Addr) : (host a).contains b = decide (b = a) := by
  have all : mask 32 = BitVec.allOnes 32 := by decide
  simp only [host, mk', contains, all, BitVec.and_allOnes]
  exact Bool.beq_eq_decide_eq b a

end Cidr

/-- The match modules this development reads; `other` stands for every module
it does not, with its arguments as listed. -/
inductive Module
  | dport (lo hi : Port)
  | multiport (ranges : List (Port × Port))
  | state (states : List CtState)
  | comment (text : Text)
  | other (name : Text) (args : List Text)
  deriving DecidableEq, Repr

inductive Target
  | accept
  | drop
  | reject
  | ret
  | jump (chain : Text)
  | other (name : Text)
  deriving DecidableEq, Repr

inductive Verdict
  | accept
  | drop
  | reject
  deriving DecidableEq, Repr

structure Rule where
  src : Cidr := .any
  dst : Cidr := .any
  inIface : Option Text := none
  outIface : Option Text := none
  proto : Option Proto := none
  modules : List Module := []
  target : Option Target := none
  deriving DecidableEq, Repr

/-- How the modules and targets outside the listed ones behave. Nothing is
assumed about them. -/
structure Ext where
  hits : Text → List Text → Packet → Bool
  target : Text → Packet → Option Verdict

def inRange (lo hi p : Port) : Bool := lo ≤ p && p ≤ hi

theorem inRange_self {n : Nat} (bounded : n < 65536) (p : Port) :
    inRange (BitVec.ofNat 16 n) (BitVec.ofNat 16 n) p = true ↔ n = p.toNat := by
  simp only [inRange, Bool.and_eq_true, decide_eq_true_eq, BitVec.le_def, BitVec.toNat_ofNat]
  omega

def Module.hits (ext : Ext) (p : Packet) : Module → Bool
  | dport lo hi => inRange lo hi p.dport
  | multiport ranges => ranges.any (fun r => inRange r.1 r.2 p.dport)
  | state states => states.contains p.state
  | comment _ => true
  | other name args => ext.hits name args p

/-- A trailing plus makes an interface name a pattern. -/
def ifaceHits (pattern name : Text) : Bool :=
  if pattern.getLast? = some '+' then pattern.dropLast.isPrefixOf name else pattern == name

def Rule.hits (ext : Ext) (r : Rule) (p : Packet) : Bool :=
  r.src.contains p.src && r.dst.contains p.dst &&
    r.inIface.all (fun i => ifaceHits i p.inIface) &&
    r.outIface.all (fun o => ifaceHits o p.outIface) &&
    r.proto.all (fun q => p.proto == q) &&
    r.modules.all (·.hits ext p)

def Rule.comment (r : Rule) : Option Text :=
  r.modules.findSome? fun
    | .comment text => some text
    | _ => none

/-- The verdict of a target that ends the traversal. -/
def Target.verdict : Target → Option Verdict
  | accept => some .accept
  | drop => some .drop
  | reject => some .reject
  | _ => none

def Rule.verdict (r : Rule) : Option Verdict := r.target.bind Target.verdict

/-- First match wins. `call` is what a jump to a user chain answers; no answer
means the chain returned and the traversal goes on below the jump. -/
def traverse (ext : Ext) (call : Text → Packet → Option Verdict) (p : Packet) :
    List Rule → Option Verdict
  | [] => none
  | r :: rs =>
    if r.hits ext p then
      match r.target with
      | none => traverse ext call p rs
      | some .accept => some .accept
      | some .drop => some .drop
      | some .reject => some .reject
      | some .ret => none
      | some (.jump chain) => (call chain p).or (traverse ext call p rs)
      | some (.other name) => (ext.target name p).or (traverse ext call p rs)
    else traverse ext call p rs

section
variable {ext : Ext} {call : Text → Packet → Option Verdict} {p : Packet} {r : Rule}
  {rs : List Rule}

theorem traverse_skip (unmatched : r.hits ext p = false) :
    traverse ext call p (r :: rs) = traverse ext call p rs := by
  simp [traverse, unmatched]

theorem traverse_stop {v : Verdict} (terminal : r.verdict = some v)
    (matched : r.hits ext p = true) : traverse ext call p (r :: rs) = some v := by
  unfold Rule.verdict at terminal
  cases target : r.target with
  | none => simp [target] at terminal
  | some t => cases t <;> simp_all [traverse, Target.verdict]

/-- Rules that do not match may as well be absent. -/
theorem traverse_filter {block : List Rule} {keep : Rule → Bool}
    (idle : ∀ r ∈ block, keep r = false → r.hits ext p = false) :
    traverse ext call p (block ++ rs) = traverse ext call p (block.filter keep ++ rs) := by
  induction block with
  | nil => rfl
  | cons r block ih =>
    rw [List.forall_mem_cons] at idle
    cases kept : keep r with
    | true =>
      rw [List.filter_cons_of_pos kept, List.cons_append, List.cons_append, traverse, traverse, ih idle.2]
    | false =>
      rw [List.filter_cons_of_neg (by simp [kept]), List.cons_append, traverse_skip (idle.1 kept), ih idle.2]

/-- A block of rules that all end the traversal decides by its first match,
whatever stands below it. -/
theorem traverse_block {block : List Rule} (terminal : ∀ r ∈ block, r.verdict.isSome) :
    traverse ext call p (block ++ rs) =
      match block.find? (·.hits ext p) with
      | some r => r.verdict
      | none => traverse ext call p rs := by
  induction block with
  | nil => rfl
  | cons r block ih =>
    have rest := ih (fun s member => terminal s (List.mem_cons_of_mem _ member))
    obtain ⟨v, verdict⟩ := Option.isSome_iff_exists.mp (terminal r (List.mem_cons_self ..))
    cases matched : r.hits ext p with
    | true => simp [List.find?, matched, traverse_stop verdict matched, verdict]
    | false => simp [List.find?, matched, traverse_skip matched, rest]

/-- In a block of accepting rules the order does not matter. -/
theorem traverse_accepts {block : List Rule} (accepts : ∀ r ∈ block, r.target = some .accept) :
    traverse ext call p (block ++ rs) =
      if block.any (·.hits ext p) then some .accept else traverse ext call p rs := by
  have verdict : ∀ r ∈ block, r.verdict = some .accept := fun r member => by
    simp [Rule.verdict, accepts r member, Target.verdict]
  rw [traverse_block (fun r member => by simp [verdict r member])]
  cases found : block.find? (·.hits ext p) with
  | none =>
    have unmatched := List.find?_eq_none.mp found
    have noMatch : block.any (·.hits ext p) = false := by
      rw [List.any_eq_false]; exact unmatched
    simp [noMatch]
  | some r =>
    have member := List.mem_of_find?_eq_some found
    have matched := List.find?_some found
    have some' : block.any (·.hits ext p) = true := List.any_eq_true.mpr ⟨r, member, matched⟩
    simp [some', verdict r member]

end

end Netfilter
