import Protean.Ikev2.Clients
import Protean.Run

namespace Protean.Ikev2
open Cert (Crypto CA sanitizeName)
open Sections (IsName IsValue)
open WgFamily (validPeerName)
open Proc (Triple Keeps)

section
variable {t : Text} {clients : KeyTable Text Client} {opts : Options} {pushRoutes : List Text} {egress : Bool}

/-- Sorting the parts of a text loses none of it. -/
theorem commas_sort_ne_nil (some' : t ≠ []) : commas (sortTexts (t.splitOn ',')) ≠ [] := by
  intro empty
  have perm : (sortTexts (t.splitOn ',')).Perm (t.splitOn ',') := List.perm_insertionSort _ _
  have parts : sortTexts (t.splitOn ',') ≠ [] := by
    intro none'
    rw [none'] at perm
    exact List.splitOn_ne_nil ',' t perm.symm.eq_nil
  have back : (commas (sortTexts (t.splitOn ','))).splitOn ',' = sortTexts (t.splitOn ',') :=
    List.splitOn_intercalate ',' (fun part inside => Text.not_mem_of_mem_splitOn (perm.mem_iff.mp inside)) parts
  have nothing : [[]].Perm (t.splitOn ',') := by
    rw [empty] at back
    rwa [← back] at perm
  have whole : [','].intercalate (t.splitOn ',') = t := List.intercalate_splitOn ','
  rw [← List.singleton_perm.mp nothing] at whole
  exact some' whole.symm

theorem mem_siteClients {sc : SiteClient} :
    sc ∈ siteClients clients ↔ ∃ row, clients.get sc.cn = some row ∧ row.subnets ≠ [] ∧ sc.subnets = row.subnets.splitOn ',' := by
  rw [siteClients, List.mem_filterMap]
  constructor
  · rintro ⟨⟨cn, row⟩, inside, made⟩
    split at made
    · cases made
    · rename_i routed
      cases made
      exact ⟨row, KeyTable.get_eq_some_iff.mpr inside, routed, rfl⟩
  · rintro ⟨row, found, routed, parts⟩
    refine ⟨(sc.cn, row), KeyTable.get_eq_some_iff.mp found, ?_⟩
    rw [if_neg routed, ← parts]

theorem routed_siteClients :
    ∀ sc ∈ (serverParams opts pushRoutes egress clients).siteClients, sc.subnets ≠ [] ∧ sc.remoteSelectors ≠ [] := by
  intro sc inside
  obtain ⟨row, -, routed, parts⟩ := mem_siteClients.mp inside
  rw [SiteClient.remoteSelectors, parts]
  exact ⟨List.splitOn_ne_nil ',' _, commas_sort_ne_nil routed⟩

end

/-- A name that the panel checked is a value, and is not blank. -/
theorem isValue_of_validPeerName {letterOrNumber : Char → Bool} {cn : Text}
    (plain : ∀ c ∈ "\n#\x7d".toList, letterOrNumber c = false) (valid : validPeerName letterOrNumber cn = true)
    (trimmed : Text.trimSpace cn = cn) : IsValue cn ∧ Text.trimSpace cn ≠ [] := by
  simp only [validPeerName, Bool.and_eq_true, decide_eq_true_eq, List.all_eq_true, Bool.or_eq_true] at valid
  obtain ⟨⟨long, -⟩, all⟩ := valid
  have ends := Text.Trimmed.of_trimSpace_eq trimmed
  have solid : ∀ c : Char, Text.isSpace c = false → Sections.blank c = false := by
    intro c other
    by_contra space
    simp only [Sections.blank, Bool.not_eq_false, Bool.or_eq_true, decide_eq_true_eq] at space
    rcases space with (rfl | rfl) | rfl <;> exact absurd other (by decide)
  refine ⟨⟨Sections.trim_eq_self (fun c first => solid c (ends.head c first)) fun c last => solid c (ends.last c last),
    fun c inside => ?_⟩, ?_⟩
  · by_contra special
    simp only [Sections.endsValue, Bool.not_eq_false, Bool.or_eq_true, decide_eq_true_eq] at special
    rcases all c inside with class' | listed
    · rcases special with (rfl | rfl) | rfl
      · rw [plain _ (by decide)] at class'; cases class'
      · rw [plain _ (by decide)] at class'; cases class'
      · rw [plain _ (by decide)] at class'; cases class'
    · rcases special with (rfl | rfl) | rfl <;> exact absurd listed (by decide)
  · rw [trimmed]
    rintro rfl
    exact absurd long (by decide)

/-- The file on the host is the one of the clients in the database. -/
def Current (opts : Options) (s : State) : Prop :=
  ∀ pushRoutes egress, s.routes = some (pushRoutes, egress) →
    s.conf = some ((serverParams opts pushRoutes egress s.clients).renderConnections ++ ['\n'])

section
variable {opts : Options} {crypto : Crypto} {env : Env} {pushRoutes : List Text} {egress : Bool}

theorem current_writeConnAndLoad :
    Triple (fun s => s.routes = some (pushRoutes, egress)) (writeConnAndLoad opts env pushRoutes egress)
      (fun _ => Current opts) fun _ => True := by
  have listed : Triple (fun s : State => s.routes = some (pushRoutes, egress))
      (Proc.read fun s => if env.listClients then some s.clients else none)
      (fun clients s => s.routes = some (pushRoutes, egress) ∧ s.clients = clients) fun _ => True := by
    refine Triple.read (fun clients s found routes => ⟨routes, ?_⟩) fun _ _ _ => trivial
    split at found
    · exact Option.some.inj found
    · cases found
  refine listed.bind fun clients => Triple.bind (Q := fun _ => Current opts) ?_ fun _ =>
    Triple.guard (fun _ _ holds => holds) fun _ _ _ => trivial
  refine Triple.write (fun s _ holds => ?_) (fun _ _ _ => trivial) fun _ _ _ => trivial
  obtain ⟨routes, rfl⟩ := holds
  intro pushRoutes' egress' same
  cases routes.symm.trans same
  rfl

/-- Once the procedure has gone through, the file is the right one. -/
def Updates (opts : Options) (m : Proc State α) : Prop := Triple (fun _ => True) m (fun _ => Current opts) fun _ => True

theorem Updates.after {m : Proc State α} {f : α → Proc State β} (rest : ∀ a, Updates opts (f a)) : Updates opts (m >>= f) :=
  Triple.bind (Keeps.of_state fun _ _ => trivial) rest

theorem Updates.answer {m : Proc State α} {g : α → β} (updates : Updates opts m) :
    Updates opts (m >>= fun a => pure (g a)) :=
  Triple.bind updates fun _ => Triple.pure fun _ holds => holds

theorem updates_applyClients : Updates opts (applyClients opts env) := by
  have known : Triple (fun _ : State => True) (Proc.read fun s => if env.getRoutes then some s.routes else none)
      (fun routes s => s.routes = routes) fun _ => True := by
    refine Triple.read (fun routes s found _ => ?_) fun _ _ _ => trivial
    split at found
    · exact Option.some.inj found
    · cases found
  refine known.bind fun routes => ?_
  cases routes with
  | none =>
    refine Triple.pure fun s none' pushRoutes egress some' => ?_
    rw [none'] at some'
    cases some'
  | some routes => exact current_writeConnAndLoad

theorem updates_storeClient {cn certPEM p12pass address : Text} {encKeyPEM : Option Text} {subnets : List Text} :
    Updates opts (storeClient opts env cn certPEM encKeyPEM p12pass address subnets) :=
  .after fun _ => updates_applyClients

/-- A request that goes through leaves the file on the host as the clients in
the database want it. -/
theorem current_serve {letterOrNumber : Char → Bool} (r : Request) :
    Triple (fun _ => True) (serve opts crypto env letterOrNumber r) (fun _ => Current opts) fun _ => True := by
  suffices Updates opts (serve opts crypto env letterOrNumber r) from this
  cases r with
  | create name allowedIPs =>
    have added : Updates opts (addPeer opts crypto env (Text.trimSpace name) allowedIPs) :=
      .after fun _ => .after fun _ => .after fun _ => .after fun _ => .after fun _ => updates_storeClient.answer
    exact .after fun _ => added.answer
  | createFromCSR csrPEM name allowedIPs =>
    have added : Updates opts (addPeerFromCSR opts crypto env csrPEM (Text.trimSpace name) allowedIPs) :=
      .after fun _ => .after fun _ => .after fun _ => updates_storeClient.answer
    exact .after fun _ => added.answer
  | importPeer certPEM keyPEM =>
    refine Updates.answer (.after fun _ => .after fun _ => ?_)
    split
    · exact updates_storeClient.answer
    · exact .after fun _ => .after fun _ => .after fun _ => updates_storeClient.answer
  | update id allowedIPs => exact .after fun _ => updates_storeClient
  | delete id => exact .after fun _ => .after fun _ => updates_applyClients
  | provision pushRoutes egress =>
    have saved : Triple (fun _ => True) (Proc.write env.saveRoutes fun s : State =>
        { s with routes := some (pushRoutes, egress) }) (fun _ s => s.routes = some (pushRoutes, egress)) fun _ => True :=
      Triple.write (fun _ _ _ => rfl) (fun _ _ _ => trivial) fun _ _ _ => trivial
    exact .after fun _ => saved.bind fun _ => current_writeConnAndLoad

end

/-- What is rendered for the clients reads as what was meant exactly when all
texts are names and values and no two clients share a section. A name that the
panel checked is always a value. -/
theorem connections_faithful_iff (letterOrNumber : Char → Bool) (plain : ∀ c ∈ "\n#\x7d".toList, letterOrNumber c = false)
    (opts : Options) (pushRoutes : List Text) (egress : Bool) (clients : KeyTable Text Client) :
    (Faithful (serverParams opts pushRoutes egress clients) ↔ WellFormed (serverParams opts pushRoutes egress clients)) ∧
      ∀ cn, validPeerName letterOrNumber cn = true → Text.trimSpace cn = cn → IsValue cn ∧ Text.trimSpace cn ≠ [] :=
  ⟨faithful_iff routed_siteClients, fun _ valid trimmed => isValue_of_validPeerName plain valid trimmed⟩

def sampleOptions : Options := ⟨[], "vpn.example.org".toList, "10.9.0.0/24".toList, []⟩

def sampleEnv : Env := { ca := some ⟨"ca1".toList, "key1".toList⟩, randPassword := some "secret".toList }

/-- Requests for sites of these names, each with a subnet of its own. -/
def sampleRun (names : List (Text × Text)) : List (Request × Env) :=
  names.map fun n => (.create n.1 ["10.9.0.2/32".toList, n.2], sampleEnv)

def sampleState (names : List (Text × Text)) : State :=
  Run.after (step sampleOptions Cert.sampleCrypto Char.isAlphanum) State.initial (sampleRun names)

theorem connections_faithful_sample :
    Faithful (serverParams sampleOptions [] true
      (sampleState [("a".toList, "192.168.1.0/24".toList), ("b".toList, "192.168.2.0/24".toList)]).clients) := by
  refine (connections_faithful_iff Char.isAlphanum (by decide +kernel) _ _ _ _).1.mpr ?_
  exact ⟨by decide +kernel, by decide +kernel, by decide +kernel, by decide +kernel, by decide +kernel, by decide +kernel,
    by decide +kernel, by decide +kernel, by decide +kernel, by decide +kernel⟩

/-- Two names that the panel accepts, and one section for both. -/
theorem connections_collide :
    let s := sampleState [("branch a".toList, "192.168.1.0/24".toList), ("branch_a".toList, "192.168.2.0/24".toList)]
    (siteClients s.clients).map (fun sc => (sc.cn, sanitizeName sc.cn)) =
        [("branch a".toList, "branch_a".toList), ("branch_a".toList, "branch_a".toList)] ∧
      ¬ Faithful (serverParams sampleOptions [] true s.clients) := by
  refine ⟨by decide +kernel, fun faithful => ?_⟩
  have names := (faithful_iff routed_siteClients).mp faithful |>.names
  exact absurd names (by decide +kernel)

end Protean.Ikev2
