import Protean.Netfilter.Rule

/- The words of the packet filter's command line and of its restore format. -/
namespace Word

def dashA : Text := ['-', 'A']
def dashS : Text := ['-', 's']
def dashD : Text := ['-', 'd']
def dashI : Text := ['-', 'i']
def dashO : Text := ['-', 'o']
def dashP : Text := ['-', 'p']
def dashM : Text := ['-', 'm']
def dashJ : Text := ['-', 'j']
def dashDport : Text := ['-', '-', 'd', 'p', 'o', 'r', 't']
def dashDports : Text := ['-', '-', 'd', 'p', 'o', 'r', 't', 's']
def dashState : Text := ['-', '-', 's', 't', 'a', 't', 'e']
def dashComment : Text := ['-', '-', 'c', 'o', 'm', 'm', 'e', 'n', 't']
def multiport : Text := ['m', 'u', 'l', 't', 'i', 'p', 'o', 'r', 't']
def state : Text := ['s', 't', 'a', 't', 'e']
def comment : Text := ['c', 'o', 'm', 'm', 'e', 'n', 't']
def tcp : Text := ['t', 'c', 'p']
def udp : Text := ['u', 'd', 'p']
def icmp : Text := ['i', 'c', 'm', 'p']
def new : Text := ['N', 'E', 'W']
def established : Text := ['E', 'S', 'T', 'A', 'B', 'L', 'I', 'S', 'H', 'E', 'D']
def related : Text := ['R', 'E', 'L', 'A', 'T', 'E', 'D']
def invalid : Text := ['I', 'N', 'V', 'A', 'L', 'I', 'D']
def untracked : Text := ['U', 'N', 'T', 'R', 'A', 'C', 'K', 'E', 'D']
def accept : Text := ['A', 'C', 'C', 'E', 'P', 'T']
def drop : Text := ['D', 'R', 'O', 'P']
def reject : Text := ['R', 'E', 'J', 'E', 'C', 'T']
def ret : Text := ['R', 'E', 'T', 'U', 'R', 'N']
def input : Text := ['I', 'N', 'P', 'U', 'T']
def forward : Text := ['F', 'O', 'R', 'W', 'A', 'R', 'D']
def output : Text := ['O', 'U', 'T', 'P', 'U', 'T']
def prerouting : Text := ['P', 'R', 'E', 'R', 'O', 'U', 'T', 'I', 'N', 'G']
def postrouting : Text := ['P', 'O', 'S', 'T', 'R', 'O', 'U', 'T', 'I', 'N', 'G']
def filter : Text := ['f', 'i', 'l', 't', 'e', 'r']
def nat : Text := ['n', 'a', 't']
def mangle : Text := ['m', 'a', 'n', 'g', 'l', 'e']
def raw : Text := ['r', 'a', 'w']
def security : Text := ['s', 'e', 'c', 'u', 'r', 'i', 't', 'y']
def commit : Text := ['C', 'O', 'M', 'M', 'I', 'T']

end Word

namespace Netfilter

/-- A port in the packet filter's own number syntax. Service names, which
depend on the host's database, are not read. -/
def readPort (t : Text) : Option Port :=
  (Text.readNumber t).bind fun n => if n < 65536 then some (BitVec.ofNat 16 n) else none

/-- `n` or `lo:hi`, with the end of an open range filled in. -/
def readPortRange (t : Text) : Option (Port × Port) :=
  match t.splitOn ':' with
  | [n] => (readPort n).map fun p => (p, p)
  | [lo, hi] => do
    let l ← if lo = [] then some 0 else readPort lo
    let h ← if hi = [] then some 65535 else readPort hi
    if l ≤ h then some (l, h) else none
  | _ => none

/-- The places a list of ports takes; a range takes two. -/
def portPlaces (t : Text) : Nat := ((t.splitOn ',').map fun part => if ':' ∈ part then 2 else 1).sum

/-- The multiport module has fifteen places. -/
def readMultiport (t : Text) : Option (List (Port × Port)) :=
  ((t.splitOn ',').mapM readPortRange).bind fun ranges =>
    if portPlaces t ≤ 15 then some ranges else none

def readOctet (t : Text) : Option Nat :=
  (Text.readNumber t).bind fun n => if n < 256 then some n else none

def addrOf (a b c d : Nat) : Addr := BitVec.ofNat 32 (((a * 256 + b) * 256 + c) * 256 + d)

def readAddr (t : Text) : Option Addr :=
  match t.splitOn '.' with
  | [a, b, c, d] => do
    return addrOf (← readOctet a) (← readOctet b) (← readOctet c) (← readOctet d)
  | _ => none

/-- `address` or `address/length`; host bits are cleared. -/
def readCidr (t : Text) : Option Cidr :=
  match t.splitOn '/' with
  | [a] => (readAddr a).map Cidr.host
  | [a, l] => do
    let addr ← readAddr a
    let len ← Text.readNumber l
    if bounded : len ≤ 32 then some (Cidr.mk' addr len bounded) else none
  | _ => none

def readProto (t : Text) : Option Proto :=
  if t = Word.tcp then some .tcp
  else if t = Word.udp then some .udp
  else if t = Word.icmp then some (.other 1)
  else none

def readCtState (t : Text) : Option CtState :=
  if t = Word.new then some .new
  else if t = Word.established then some .established
  else if t = Word.related then some .related
  else if t = Word.invalid then some .invalid
  else if t = Word.untracked then some .untracked
  else none

def readTarget (t : Text) : Target :=
  if t = Word.accept then .accept
  else if t = Word.drop then .drop
  else if t = Word.reject then .reject
  else if t = Word.ret then .ret
  else .jump t

/-- The part of a rule read so far: which single-use options were given, and
which loaded modules still wait for their option. -/
structure Draft where
  rule : Rule := {}
  seen : List Text := []
  loaded : List Text := []

def Rule.addModule (r : Rule) (m : Module) : Rule := { r with modules := r.modules ++ [m] }

/-- Only these protocols let a rule ask for a port. -/
def Rule.hasPorts (r : Rule) : Bool := r.proto == some .tcp || r.proto == some .udp

/-- The comment module keeps fewer than 256 bytes. -/
def commentFits (t : Text) : Bool := (t.map Char.utf8Size).sum < 256

/-- One option with its argument. -/
def readOption (d : Draft) (option value : Text) : Option Draft :=
  if option ∈ d.seen then none
  else if option = Word.dashM then
    if value ∈ [Word.multiport, Word.state, Word.comment] then
      some { d with loaded := value :: d.loaded }
    else none
  else
    let d := { d with seen := option :: d.seen }
    if option = Word.dashS then
      (readCidr value).map fun c => { d with rule := { d.rule with src := c } }
    else if option = Word.dashD then
      (readCidr value).map fun c => { d with rule := { d.rule with dst := c } }
    else if option = Word.dashI then
      some { d with rule := { d.rule with inIface := some value } }
    else if option = Word.dashO then
      some { d with rule := { d.rule with outIface := some value } }
    else if option = Word.dashP then
      (readProto value).map fun p => { d with rule := { d.rule with proto := some p } }
    else if option = Word.dashJ then
      some { d with rule := { d.rule with target := some (readTarget value) } }
    else if option = Word.dashDport then
      if d.rule.hasPorts then
        (readPortRange value).map fun r => { d with rule := d.rule.addModule (.dport r.1 r.2) }
      else none
    else if option = Word.dashDports then
      if d.rule.hasPorts ∧ Word.multiport ∈ d.loaded then
        (readMultiport value).map fun rs =>
          { d with rule := d.rule.addModule (.multiport rs), loaded := d.loaded.erase Word.multiport }
      else none
    else if option = Word.dashState then
      if Word.state ∈ d.loaded then
        ((value.splitOn ',').mapM readCtState).map fun ss =>
          { d with rule := d.rule.addModule (.state ss), loaded := d.loaded.erase Word.state }
      else none
    else if option = Word.dashComment then
      if Word.comment ∈ d.loaded ∧ commentFits value then
        some { d with
          rule := d.rule.addModule (.comment value), loaded := d.loaded.erase Word.comment }
      else none
    else none

def readOptions : Draft → List Text → Option Draft
  | d, [] => some d
  | _, [_] => none
  | d, option :: value :: rest => (readOption d option value).bind fun e => readOptions e rest

/-- The rule an argument list of `iptables -A`, `-I` or `-D` describes. -/
def readRule (args : List Text) : Option Rule :=
  (readOptions {} args).bind fun d => if d.loaded = [] then some d.rule else none

/- What each option does when it was not given before. -/
section
variable {rule : Rule} {seen loaded : List Text} {value : Text}

theorem readOption_dashM (known : value ∈ [Word.multiport, Word.state, Word.comment])
    (fresh : Word.dashM ∉ seen) :
    readOption ⟨rule, seen, loaded⟩ Word.dashM value = some ⟨rule, seen, value :: loaded⟩ := by
  rw [readOption, if_neg fresh, if_pos rfl, if_pos known]

theorem readOption_dashS (fresh : Word.dashS ∉ seen) :
    readOption ⟨rule, seen, loaded⟩ Word.dashS value =
      (readCidr value).map fun c => ⟨{ rule with src := c }, Word.dashS :: seen, loaded⟩ := by
  simp +decide only [readOption, fresh, if_true, if_false]

theorem readOption_dashD (fresh : Word.dashD ∉ seen) :
    readOption ⟨rule, seen, loaded⟩ Word.dashD value =
      (readCidr value).map fun c => ⟨{ rule with dst := c }, Word.dashD :: seen, loaded⟩ := by
  simp +decide only [readOption, fresh, if_true, if_false]

theorem readOption_dashP (fresh : Word.dashP ∉ seen) :
    readOption ⟨rule, seen, loaded⟩ Word.dashP value =
      (readProto value).map fun p => ⟨{ rule with proto := some p }, Word.dashP :: seen, loaded⟩ := by
  simp +decide only [readOption, fresh, if_true, if_false]

theorem readOption_dashJ (fresh : Word.dashJ ∉ seen) :
    readOption ⟨rule, seen, loaded⟩ Word.dashJ value =
      some ⟨{ rule with target := some (readTarget value) }, Word.dashJ :: seen, loaded⟩ := by
  simp +decide only [readOption, fresh, if_true, if_false]

theorem readOption_dashDport (fresh : Word.dashDport ∉ seen) :
    readOption ⟨rule, seen, loaded⟩ Word.dashDport value =
      if rule.hasPorts then (readPortRange value).map fun r =>
        ⟨rule.addModule (.dport r.1 r.2), Word.dashDport :: seen, loaded⟩
      else none := by
  simp +decide only [readOption, fresh, if_true, if_false]

theorem readOption_dashDports (fresh : Word.dashDports ∉ seen) (ready : Word.multiport ∈ loaded) :
    readOption ⟨rule, seen, loaded⟩ Word.dashDports value =
      if rule.hasPorts then (readMultiport value).map fun rs =>
        ⟨rule.addModule (.multiport rs), Word.dashDports :: seen, loaded.erase Word.multiport⟩
      else none := by
  simp +decide only [readOption, fresh, ready, if_true, if_false, and_true]

theorem readOption_dashComment (fresh : Word.dashComment ∉ seen) (ready : Word.comment ∈ loaded) :
    readOption ⟨rule, seen, loaded⟩ Word.dashComment value =
      if commentFits value then
        some ⟨rule.addModule (.comment value), Word.dashComment :: seen, loaded.erase Word.comment⟩
      else none := by
  simp +decide only [readOption, fresh, ready, if_true, if_false, true_and]

end

/-- A trailing comment is the last thing a rule keeps. -/
theorem readOptions_comment {rule : Rule} {seen : List Text} {text : Text}
    (freshM : Word.dashM ∉ seen) (fresh : Word.dashComment ∉ seen) :
    readOptions ⟨rule, seen, []⟩ [Word.dashM, Word.comment, Word.dashComment, text] =
      if commentFits text then
        some ⟨rule.addModule (.comment text), Word.dashComment :: seen, []⟩
      else none := by
  simp only [readOptions]
  rw [readOption_dashM (by decide) freshM, Option.bind_some,
    readOption_dashComment fresh (List.mem_cons_self ..)]
  split <;> rfl

theorem hasPorts_iff (rule : Rule) :
    rule.hasPorts = true ↔ rule.proto = some .tcp ∨ rule.proto = some .udp := by
  simp [Rule.hasPorts]

/-- The arguments that accept one port, with a comment. -/
def acceptPort (proto port text : Text) : List Text :=
  [Word.dashP, proto, Word.dashDport, port, Word.dashJ, Word.accept,
    Word.dashM, Word.comment, Word.dashComment, text]

theorem readRule_acceptPort (proto port text : Text) :
    readRule (acceptPort proto port text) = (readProto proto).bind fun q =>
      if q = .tcp ∨ q = .udp then
        (readPortRange port).bind fun r =>
          if commentFits text then
            some { proto := some q, modules := [.dport r.1 r.2, .comment text], target := some .accept }
          else none
      else none := by
  simp only [acceptPort, readRule, readOptions]
  rw [readOption_dashP (by decide)]
  cases readProto proto with
  | none => rfl
  | some q =>
    have ports := hasPorts_iff { proto := some q }
    simp only [Option.some.injEq] at ports
    simp (disch := decide) only [Option.map_some, Option.bind_some, readOption_dashDport, ports]
    by_cases has : q = .tcp ∨ q = .udp
    · rw [if_pos has, if_pos has]
      cases readPortRange port with
      | none => rfl
      | some r =>
        simp (disch := decide) only [Option.map_some, Option.bind_some, readOption_dashJ,
          readOption_dashM, readOption_dashComment]
        split <;> rfl
    · rw [if_neg has, if_neg has]
      rfl

theorem readPort_decimal {n : Nat} (bounded : n < 65536) :
    readPort (Text.decimal n) = some (BitVec.ofNat 16 n) := by
  rw [readPort, Text.readNumber_decimal]
  simp [bounded]

theorem readPortRange_decimal {n : Nat} (bounded : n < 65536) :
    readPortRange (Text.decimal n) = some (BitVec.ofNat 16 n, BitVec.ofNat 16 n) := by
  have single : (Text.decimal n).splitOn ':' = [Text.decimal n] :=
    List.splitOn_eq_singleton fun member =>
      absurd (Text.isDigit_of_mem_decimal member) (by decide)
  rw [readPortRange, single]
  simp [readPort_decimal bounded]

end Netfilter
