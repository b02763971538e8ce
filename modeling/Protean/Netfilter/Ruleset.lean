import Protean.Netfilter.Rule

namespace Netfilter

inductive Hook
  | prerouting
  | input
  | forward
  | output
  | postrouting
  deriving DecidableEq, Repr

inductive Policy
  | accept
  | drop
  deriving DecidableEq, Repr

def Policy.verdict : Policy → Verdict
  | accept => .accept
  | drop => .drop

structure Chain where
  policy : Policy
  rules : List Rule
  deriving DecidableEq

/-- The built-in chains of a table always exist; user chains come and go. -/
structure Table where
  builtin : Hook → Chain
  user : Text → Option (List Rule)

/-- The tables besides `filter`. -/
inductive SideTable
  | nat
  | mangle
  | raw
  | security
  deriving DecidableEq, Repr

structure Ruleset where
  filter : Table
  side : SideTable → Table

namespace Table

/-- A flushed table. -/
def empty : Table := ⟨fun _ => ⟨.accept, []⟩, fun _ => none⟩

def modify (t : Table) (hook : Hook) (f : Chain → Chain) : Table :=
  { t with builtin := fun h => if h = hook then f (t.builtin h) else t.builtin h }

/-- `iptables -I HOOK 1`. -/
def insert (t : Table) (hook : Hook) (r : Rule) : Table :=
  t.modify hook fun c => { c with rules := r :: c.rules }

/-- `-A HOOK`, for each rule in turn. -/
def append (t : Table) (hook : Hook) (rs : List Rule) : Table :=
  t.modify hook fun c => { c with rules := c.rules ++ rs }

@[simp] theorem append_nil (t : Table) (hook : Hook) : t.append hook [] = t := by
  simp [append, modify]

theorem append_append (t : Table) (hook : Hook) (rs ss : List Rule) :
    (t.append hook rs).append hook ss = t.append hook (rs ++ ss) := by
  simp only [append, modify, Table.mk.injEq, and_true]
  funext h
  split <;> simp

@[simp] theorem modify_builtin_self (t : Table) (hook : Hook) (f : Chain → Chain) :
    (t.modify hook f).builtin hook = f (t.builtin hook) := by
  simp [modify]

@[simp] theorem insert_rules_self (t : Table) (hook : Hook) (r : Rule) :
    ((t.insert hook r).builtin hook).rules = r :: (t.builtin hook).rules := by
  simp [insert]

/-- What a call of a user chain answers. The kernel bounds the depth of
nested calls, and so does `depth`. -/
def call (ext : Ext) (t : Table) : Nat → Text → Packet → Option Verdict
  | 0, _, _ => none
  | depth + 1, chain, p =>
    (t.user chain).bind fun rules => traverse ext (call ext t depth) p rules

/-- Calls only look at user chains. -/
theorem call_congr {ext : Ext} {t u : Table} (same : t.user = u.user) (depth : Nat) :
    call ext t depth = call ext u depth := by
  induction depth with
  | zero => rfl
  | succ depth ih =>
    funext chain p
    simp only [call, same, ih]

/-- First-match evaluation of a built-in chain, with its policy at the end. -/
def verdict (ext : Ext) (depth : Nat) (t : Table) (hook : Hook) (p : Packet) : Verdict :=
  (traverse ext (call ext t depth) p (t.builtin hook).rules).getD (t.builtin hook).policy.verdict

section
variable {ext : Ext} {depth : Nat} {t : Table} {hook : Hook} {r : Rule} {p : Packet}

theorem verdict_insert_of_hits {v : Verdict} (terminal : r.verdict = some v)
    (matched : r.hits ext p = true) : (t.insert hook r).verdict ext depth hook p = v := by
  rw [verdict, insert_rules_self, traverse_stop terminal matched]
  rfl

theorem verdict_insert_of_not_hits (unmatched : r.hits ext p = false) :
    (t.insert hook r).verdict ext depth hook p = t.verdict ext depth hook p := by
  have users : (t.insert hook r).user = t.user := rfl
  have calls := @call_congr ext _ _ users depth
  rw [verdict, insert_rules_self, traverse_skip unmatched, calls, verdict]
  simp [insert]

end

end Table

/-- What a listing of tables in the restore format holds: the full content of
each table it names. -/
structure Dump where
  filter : Option Table
  side : SideTable → Option Table

namespace Ruleset

/-- Every table flushed, with the given `INPUT` policy. -/
def bare (policy : Policy) : Ruleset :=
  ⟨Table.empty.modify .input fun c => { c with policy := policy }, fun _ => .empty⟩

/-- `iptables-save`: every table is listed. -/
def save (r : Ruleset) : Dump := ⟨some r.filter, fun t => some (r.side t)⟩

/-- `iptables-restore` without `--noflush`: the full content of each named
table is replaced, the other tables stay. -/
def restore (d : Dump) (r : Ruleset) : Ruleset :=
  ⟨d.filter.getD r.filter, fun t => (d.side t).getD (r.side t)⟩

@[simp] theorem restore_save (r before : Ruleset) : restore r.save before = r := rfl

/-- `iptables -I HOOK 1` in the filter table. -/
def insert (r : Ruleset) (hook : Hook) (rule : Rule) : Ruleset :=
  { r with filter := r.filter.insert hook rule }

end Ruleset

/-- Everything outside the `INPUT` chain and the user chains of `filter`. -/
structure Frame where
  forward : Chain
  output : Chain
  side : SideTable → Table

def Ruleset.frame (r : Ruleset) : Frame :=
  ⟨r.filter.builtin .forward, r.filter.builtin .output, r.side⟩

def Ruleset.setFrame (r : Ruleset) (f : Frame) : Ruleset :=
  ⟨(r.filter.modify .forward fun _ => f.forward).modify .output fun _ => f.output, f.side⟩

@[simp] theorem Ruleset.frame_setFrame (r : Ruleset) (f : Frame) : (r.setFrame f).frame = f := by
  simp [Ruleset.frame, Ruleset.setFrame, Table.modify]

theorem Ruleset.frame_insert_input (r : Ruleset) (rule : Rule) :
    (r.insert .input rule).frame = r.frame := by
  simp [Ruleset.frame, Ruleset.insert, Table.insert, Table.modify]

end Netfilter
