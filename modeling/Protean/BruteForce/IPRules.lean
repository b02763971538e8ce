import Protean.BruteForce.Guard
import Protean.Inet.Bytes

/- The allow and deny rules of the login page: which addresses a rule is meant for, and which client
addresses the guard finds it for. -/
namespace Protean.BruteForce

/-- `net.ParseCIDR` of the rule and `Contains` of the address it is compared with. -/
def ruleContains (rule ip : Text) : Bool :=
  match Inet.parseCIDR rule, Inet.parseIP ip with
  | some (_, net), some a => net.contains a
  | _, _ => false

/-- The guard reads addresses with package `net`. -/
def Guard.onNet (g : Guard) : Guard :=
  { g with parseIP := fun ip => (Inet.parseIP ip).isSome, contains := ruleContains }

/-- A message in English and in Russian. -/
structure Message where
  en : Text
  ru : Text

/-- For a request whose body decodes: the rules that are stored then, or the message it is refused with.
A rule has one row, so a second request for it changes its kind. -/
def apiLoginIPRulesAdd (rules : KeyTable Text RuleKind) (ipOrCIDR kind : Text) :
    Except Message (KeyTable Text RuleKind) :=
  let ipOrCIDR := Text.trimSpace ipOrCIDR
  if ipOrCIDR = [] then
    .error ⟨"ip_or_cidr is required".toList, "необходимо указать ip_or_cidr".toList⟩
  else if kind = "allow".toList then .ok (rules.upsert ipOrCIDR .allow)
  else if kind = "deny".toList then .ok (rules.upsert ipOrCIDR .deny)
  else
    .error ⟨"kind must be \"allow\" or \"deny\"".toList, "kind должен быть \"allow\" или \"deny\"".toList⟩

def listLoginIPRules (rules : KeyTable Text RuleKind) : List LoginIPRule := rules.rows.map fun row => ⟨row.1, row.2⟩

/-- The addresses a rule is meant for: those of its network, or the one it spells. -/
def LoginIPRule.denotes (r : LoginIPRule) (a : Inet.Addr) : Bool :=
  (Inet.parseCIDR r.ipOrCIDR).any (·.2.contains a) || (Inet.parseIP r.ipOrCIDR).any (·.equal a)

/-- The rules that are found for a client address: spelled the same, or a network that contains it. -/
def LoginIPRule.found (r : LoginIPRule) (ip : Text) : Bool := r.ipOrCIDR = ip || ruleContains r.ipOrCIDR ip

section Verdict

variable {hits hits' : LoginIPRule → Bool} {rules : List LoginIPRule}

/-- A set of rules with deny precedence. -/
def verdict (hits : LoginIPRule → Bool) (rules : List LoginIPRule) : Option RuleKind :=
  if ∃ r ∈ rules, r.kind = .deny ∧ hits r = true then some .deny
  else if ∃ r ∈ rules, r.kind = .allow ∧ hits r = true then some .allow
  else none

theorem verdict_perm {rules' : List LoginIPRule} (perm : rules'.Perm rules) : verdict hits rules' = verdict hits rules := by
  simp only [verdict, perm.mem_iff]

theorem verdict_eq_deny_iff : verdict hits rules = some .deny ↔ ∃ r ∈ rules, r.kind = .deny ∧ hits r = true := by
  unfold verdict
  split
  · simp_all
  · rename_i none_
    refine iff_of_false ?_ none_
    split <;> simp

theorem verdict_eq_allow_iff : verdict hits rules = some .allow ↔
    (¬ ∃ r ∈ rules, r.kind = .deny ∧ hits r = true) ∧ ∃ r ∈ rules, r.kind = .allow ∧ hits r = true := by
  unfold verdict
  split
  · rename_i denied
    exact iff_of_false (by simp) fun both => both.1 denied
  · rename_i none_
    split
    · rename_i allowed
      exact iff_of_true rfl ⟨none_, allowed⟩
    · rename_i neither
      exact iff_of_false (by simp) fun both => neither both.2

/-- Two readings of the rules, one of them finding more, agree exactly if what the wider one decides on
is found by the narrower one as well. -/
theorem verdict_eq_iff (wider : ∀ r ∈ rules, hits r = true → hits' r = true) :
    verdict hits rules = verdict hits' rules ↔
      ∀ kind, verdict hits' rules = some kind → ∃ r ∈ rules, r.kind = kind ∧ hits r = true := by
  have grows : ∀ kind, (∃ r ∈ rules, r.kind = kind ∧ hits r = true) → ∃ r ∈ rules, r.kind = kind ∧ hits' r = true :=
    fun kind ⟨r, member, same, hit⟩ => ⟨r, member, same, wider r member hit⟩
  constructor
  · intro same kind decided
    rw [← same] at decided
    cases kind with
    | deny => exact verdict_eq_deny_iff.mp decided
    | allow => exact (verdict_eq_allow_iff.mp decided).2
  · intro finds
    cases decided : verdict hits' rules with
    | none =>
      have nothing : ∀ kind, ¬ ∃ r ∈ rules, r.kind = kind ∧ hits' r = true := by
        unfold verdict at decided
        intro kind
        cases kind <;> split_ifs at decided <;> assumption
      rw [verdict, if_neg (mt (grows _) (nothing _)), if_neg (mt (grows _) (nothing _))]
    | some kind =>
      cases kind with
      | deny => exact verdict_eq_deny_iff.mpr (finds .deny decided)
      | allow =>
        have none_denied := (verdict_eq_allow_iff.mp decided).1
        exact verdict_eq_allow_iff.mpr ⟨mt (grows _) none_denied, finds .allow decided⟩

theorem verdict_cons_deny {r : LoginIPRule} (deny : r.kind = .deny) (hit : hits r = true) :
    verdict hits (r :: rules) = some .deny := verdict_eq_deny_iff.mpr ⟨r, List.mem_cons_self, deny, hit⟩

theorem verdict_cons_allow {r : LoginIPRule} (allow : r.kind = .allow) (hit : hits r = true) :
    verdict hits (r :: rules) = (verdict hits rules).or (some .allow) := by
  have second : ∃ r' ∈ r :: rules, r'.kind = .allow ∧ hits r' = true := ⟨r, List.mem_cons_self, allow, hit⟩
  rw [verdict, if_pos second, verdict]
  simp only [List.mem_cons, exists_eq_or_imp, allow, reduceCtorEq, false_and, false_or]
  split
  · rfl
  · split <;> rfl

theorem verdict_cons_miss {r : LoginIPRule} (miss : ¬ hits r = true) :
    verdict hits (r :: rules) = verdict hits rules := by
  simp only [verdict, List.mem_cons, exists_eq_or_imp, miss, Bool.false_eq_true, and_false, false_or]

end Verdict

/-- A deny ends the search and an allow is kept. -/
theorem matchIPRules_eq (g : Guard) (ip : Text) (matched : Option RuleKind) (rules : List LoginIPRule) :
    matchIPRules g ip matched rules =
      (verdict (fun r => r.ipOrCIDR = ip ∨ g.parseIP ip ∧ g.contains r.ipOrCIDR ip) rules).or matched := by
  induction rules generalizing matched with
  | nil => rfl
  | cons r rules ih =>
    simp only [matchIPRules]
    split
    · rename_i hit
      split
      · rename_i deny
        rw [verdict_cons_deny deny (decide_eq_true hit), Option.some_or]
      · rename_i allow
        rw [ih, verdict_cons_allow allow (decide_eq_true hit), Option.or_assoc, Option.some_or]
    · rename_i miss
      rw [ih, verdict_cons_miss (by simpa using miss)]

theorem LoginIPRule.denotes_of_found {r : LoginIPRule} {ip : Text} {a : Inet.Addr} (read : Inet.parseIP ip = some a)
    (found : r.found ip = true) : r.denotes a = true := by
  simp only [LoginIPRule.found, ruleContains, read, Bool.or_eq_true, decide_eq_true_eq] at found
  rw [LoginIPRule.denotes, Bool.or_eq_true]
  obtain same | inside := found
  · refine .inr ?_
    rw [same, read]
    exact Inet.Addr.equal_iff.mpr rfl
  · refine .inl ?_
    split at inside
    · rename_i net a' parsed here
      rw [parsed]
      exact Option.some.inj here ▸ inside
    · cases inside

/-- For a client address that parses, the rules decide as a set with deny precedence, in every order,
exactly if what the denoted address is decided on has a rule that is a network or is spelled as the
client address is. -/
theorem matchIPRules_denotes_iff (g : Guard) {rules rules' : List LoginIPRule} (perm : rules'.Perm rules) {ip : Text}
    {a : Inet.Addr} (read : Inet.parseIP ip = some a) :
    matchIPRules g.onNet ip none rules' = verdict (·.denotes a) rules ↔
      ∀ kind, verdict (·.denotes a) rules = some kind → ∃ r ∈ rules, r.kind = kind ∧ r.found ip = true := by
  have hits : (fun r : LoginIPRule => decide (r.ipOrCIDR = ip ∨ g.onNet.parseIP ip ∧ g.onNet.contains r.ipOrCIDR ip)) =
      (·.found ip) := by
    funext r
    simp [Guard.onNet, read, LoginIPRule.found]
  rw [matchIPRules_eq, Option.or_none, hits, verdict_perm perm]
  exact verdict_eq_iff fun r _ => LoginIPRule.denotes_of_found read

/-- A deny rule for an address in one spelling, as the page stores it. -/
def spelledRules : KeyTable Text RuleKind := KeyTable.empty.upsert "2001:db8::1".toList .deny

def spelledGuard : Guard where
  settings := defaultLoginSecuritySettings
  rules := listLoginIPRules spelledRules
  parseIP := fun _ => false
  contains := fun _ _ => false
  banDuration := fun _ => 0

theorem matchIPRules_denotes_spelled :
    matchIPRules spelledGuard.onNet "2001:db8::1".toList none spelledGuard.rules =
      verdict (·.denotes (.v6 0x20010db8000000000000000000000001)) spelledGuard.rules := by
  refine (matchIPRules_denotes_iff spelledGuard (.refl _) (by decide +kernel)).mpr fun kind decided => ?_
  have denied : verdict (·.denotes (.v6 0x20010db8000000000000000000000001)) spelledGuard.rules = some .deny := by
    decide +kernel
  obtain rfl := Option.some.inj (denied.symm.trans decided)
  exact ⟨⟨"2001:db8::1".toList, .deny⟩, List.mem_cons_self, rfl, rfl⟩

/-- The client address in capitals is the same address, and the deny rule is not found for it. -/
theorem matchIPRules_spelling :
    (apiLoginIPRulesAdd .empty "2001:db8::1".toList "deny".toList = .ok spelledRules) ∧
      Inet.parseIP "2001:DB8::1".toList = Inet.parseIP "2001:db8::1".toList ∧
      verdict (·.denotes (.v6 0x20010db8000000000000000000000001)) spelledGuard.rules = some .deny ∧
      matchIPRules spelledGuard.onNet "2001:DB8::1".toList none spelledGuard.rules = none := by
  refine ⟨rfl, ?_, ?_, ?_⟩ <;> decide +kernel

end Protean.BruteForce
