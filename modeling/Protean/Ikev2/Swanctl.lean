import Mathlib.Data.List.Sort
import Protean.Cert.Clients
import Protean.Sections

namespace Protean.Ikev2
open Cert (sanitizeChar sanitizeName)
open Sections (Event within IsName IsValue Closed)

/-- A client that routes subnets of its own. -/
structure SiteClient where
  cn : Text
  subnets : List Text
  deriving DecidableEq, Repr

structure ServerParams where
  connName : Text
  serverID : Text
  pool : Text
  dns : List Text
  localTS : List Text
  caCertFile : Text
  serverCert : Text
  siteClients : List SiteClient
  deriving DecidableEq, Repr

/-- The order of Go's strings. -/
def textLE (a b : Text) : Bool := !b.lex a fun c d => decide (c.toNat < d.toNat)

def sortTexts (ts : List Text) : List Text := ts.insertionSort fun a b => textLE a b = true

def commas (ts : List Text) : Text := [','].intercalate ts

def esp : Text := "aes256gcm16-prfsha384-ecp384,aes256-sha256-modp2048".toList

def spaces (n : Nat) : Text := List.replicate n ' '

section
variable (p : ServerParams)

def ServerParams.name : Text := if p.connName = [] then "protean".toList else p.connName

def ServerParams.localSelectors : Text :=
  commas (sortTexts (if p.localTS = [] then ["0.0.0.0/0".toList] else p.localTS))

def SiteClient.remoteSelectors (sc : SiteClient) : Text := commas (sortTexts sc.subnets)

def ServerParams.siteName (sc : SiteClient) : Text := p.name ++ '-' :: sanitizeName sc.cn

/-- A line that is left out when there is nothing to set. -/
def optional (n : Nat) (key value : Text) : List (Text × Event) := if value ≠ [] then [(spaces n, .set key value)] else []

/-- One connection, line by line. -/
def conn (connName remoteID localTS remoteTS : Text) : List (Text × Event) :=
  (spaces 3, .enter connName) ::
  (spaces 6, .set "version".toList "2".toList) ::
  (spaces 6, .set "pools".toList (p.name ++ "-pool".toList)) ::
  (spaces 6, .set "local_addrs".toList "%any".toList) ::
  (spaces 6, .enter "local".toList) ::
  (spaces 9, .set "auth".toList "pubkey".toList) ::
  (spaces 9, .set "certs".toList p.serverCert) ::
  (spaces 9, .set "id".toList p.serverID) ::
  (spaces 6, .leave) ::
  (spaces 6, .enter "remote".toList) ::
  (spaces 9, .set "auth".toList "pubkey".toList) ::
  (spaces 9, .set "cacerts".toList p.caCertFile) ::
  optional 9 "id".toList remoteID ++
  (spaces 6, .leave) ::
  (spaces 6, .enter "children".toList) ::
  (spaces 9, .enter "net".toList) ::
  (spaces 12, .set "local_ts".toList localTS) ::
  optional 12 "remote_ts".toList remoteTS ++
  (spaces 12, .set "esp_proposals".toList esp) ::
  (spaces 12, .set "start_action".toList "none".toList) ::
  (spaces 9, .leave) ::
  (spaces 6, .leave) ::
  (spaces 6, .set "proposals".toList esp) ::
  (spaces 3, .leave) :: []

/-- The clients with subnets, by name. -/
def ServerParams.sites : List SiteClient :=
  (p.siteClients.insertionSort fun a b => textLE a.cn b.cn = true).filter fun sc =>
    !(sc.subnets = [] || Text.trimSpace sc.cn = [])

def dnsLines : List (Text × Event) := if p.dns ≠ [] then [(spaces 6, .set "dns".toList (commas p.dns))] else []

def ServerParams.lines : List (Text × Event) :=
  ([], .enter "connections".toList) ::
  conn p p.name [] p.localSelectors [] ++
  (p.sites.flatMap fun sc => conn p (p.siteName sc) sc.cn p.localSelectors sc.remoteSelectors) ++
  ([], .leave) ::
  ([], .enter "pools".toList) ::
  (spaces 3, .enter (p.name ++ "-pool".toList)) ::
  (spaces 6, .set "addrs".toList p.pool) ::
  dnsLines p ++
  (spaces 3, .leave) :: ([], .leave) :: []

def ServerParams.renderConnections : Text := "# Managed by Protean.\n".toList ++ Sections.write p.lines

/-- A connection as it is meant, with what is set for the other side. -/
def connection (connName : Text) (remote selectors : List Event) : List Event :=
  within connName
    (.set "version".toList "2".toList ::
    .set "pools".toList (p.name ++ "-pool".toList) ::
    .set "local_addrs".toList "%any".toList ::
    within "local".toList
      [.set "auth".toList "pubkey".toList, .set "certs".toList p.serverCert, .set "id".toList p.serverID] ++
    within "remote".toList
      (.set "auth".toList "pubkey".toList :: .set "cacerts".toList p.caCertFile :: remote) ++
    within "children".toList
      (within "net".toList
        (.set "local_ts".toList p.localSelectors :: selectors ++
          [.set "esp_proposals".toList esp, .set "start_action".toList "none".toList])) ++
    [.set "proposals".toList esp])

/-- The connection of one site: the identity is the name of its certificate,
and its subnets are behind it. -/
def siteConnection (sc : SiteClient) : List Event :=
  connection p (p.siteName sc) [.set "id".toList sc.cn] [.set "remote_ts".toList sc.remoteSelectors]

/-- The shared connection and the pool, with one connection for each of the sites. -/
def document (sites : List SiteClient) : List Event :=
  within "connections".toList (connection p p.name [] [] ++ sites.flatMap (siteConnection p)) ++
    within "pools".toList
      (within (p.name ++ "-pool".toList)
        (.set "addrs".toList p.pool :: if p.dns ≠ [] then [.set "dns".toList (commas p.dns)] else []))

/-- What is rendered reads as the shared connection and one for each client,
under names that are different. -/
def Faithful : Prop :=
  ∃ sites : List SiteClient, sites.Perm p.siteClients ∧ Sections.parse p.renderConnections = some (document p sites) ∧
    (p.name :: sites.map p.siteName).Nodup

/-- The texts are names and values, each client has a name that is not blank,
and no two names become the same. -/
structure WellFormed : Prop where
  name : IsName p.name
  serverCert : IsValue p.serverCert
  serverID : IsValue p.serverID
  caCertFile : IsValue p.caCertFile
  localTS : IsValue p.localSelectors
  pool : IsValue p.pool
  dns : p.dns ≠ [] → IsValue (commas p.dns)
  id : ∀ sc ∈ p.siteClients, IsValue sc.cn ∧ Text.trimSpace sc.cn ≠ []
  subnets : ∀ sc ∈ p.siteClients, IsValue sc.remoteSelectors
  names : (p.siteClients.map fun sc => sanitizeName sc.cn).Nodup

end

section
variable {p : ServerParams} {connName remoteID localTS remoteTS : Text}

theorem blank_spaces (n : Nat) : ∀ c ∈ spaces n, Sections.blank c = true := by
  intro c inside
  rw [List.eq_of_mem_replicate inside]
  rfl

/-- Every line is indented by some spaces. -/
def Indented (lines : List (Text × Event)) : Prop := ∀ l ∈ lines, ∃ n, l.1 = spaces n

theorem Indented.nil : Indented [] := by simp [Indented]

theorem Indented.cons {lines : List (Text × Event)} (n : Nat) {e : Event} (rest : Indented lines) :
    Indented ((spaces n, e) :: lines) := by
  intro l inside
  rcases List.mem_cons.mp inside with rfl | inside
  · exact ⟨n, rfl⟩
  · exact rest l inside

theorem Indented.append {lines more : List (Text × Event)} (first : Indented lines) (second : Indented more) :
    Indented (lines ++ more) := List.forall_mem_append.mpr ⟨first, second⟩

theorem Indented.flatMap {α : Type} {f : α → List (Text × Event)} (each : ∀ a, Indented (f a)) (as : List α) :
    Indented (as.flatMap f) := by
  intro l inside
  obtain ⟨a, -, here⟩ := List.mem_flatMap.mp inside
  exact each a l here

theorem indented_optional (n : Nat) (key value : Text) : Indented (optional n key value) := by
  unfold optional
  split
  · exact Indented.nil.cons n
  · exact Indented.nil

theorem indented_dnsLines : Indented (dnsLines p) := by
  unfold dnsLines
  split
  · exact Indented.nil.cons 6
  · exact Indented.nil

theorem indented_conn : Indented (conn p connName remoteID localTS remoteTS) :=
  ((((((((((((((indented_optional 9 _ _).cons 9).cons 9).cons 6).cons 6).cons 9).cons 9).cons 9).cons 6).cons 6).cons 6).cons
    6).cons 3).append (((((indented_optional 12 _ _).cons 12).cons 9).cons 6).cons 6)).append
      ((((((Indented.nil.cons 3).cons 6).cons 6).cons 9).cons 12).cons 12)

theorem indented_lines : Indented p.lines :=
  (((indented_conn.cons 0).append (Indented.flatMap (fun _ => indented_conn) _)).append
    ((((indented_dnsLines.cons 6).cons 3).cons 0).cons 0)).append ((Indented.nil.cons 0).cons 3)

theorem blank_lines : ∀ l ∈ p.lines, ∀ c ∈ l.1, Sections.blank c = true := by
  intro l inside
  obtain ⟨n, shape⟩ := indented_lines l inside
  rw [shape]
  exact blank_spaces n

theorem map_conn_shared :
    (conn p p.name [] p.localSelectors []).map Prod.snd = connection p p.name [] [] := rfl

theorem map_conn_site {sc : SiteClient} (named : sc.cn ≠ []) (routed : sc.remoteSelectors ≠ []) :
    (conn p (p.siteName sc) sc.cn p.localSelectors sc.remoteSelectors).map Prod.snd = siteConnection p sc := by
  rw [conn, optional, if_pos named, optional, if_pos routed]
  rfl

theorem mem_sites {sc : SiteClient} :
    sc ∈ p.sites ↔ sc ∈ p.siteClients ∧ sc.subnets ≠ [] ∧ Text.trimSpace sc.cn ≠ [] := by
  rw [ServerParams.sites, List.mem_filter, List.mem_insertionSort]
  simp

theorem map_lines (routed : ∀ sc ∈ p.siteClients, sc.remoteSelectors ≠ []) :
    p.lines.map Prod.snd = document p p.sites := by
  have each : (p.sites.flatMap fun sc => conn p (p.siteName sc) sc.cn p.localSelectors sc.remoteSelectors).map Prod.snd =
      p.sites.flatMap (siteConnection p) := by
    rw [List.map_flatMap]
    refine List.flatMap_congr fun sc inside => ?_
    obtain ⟨member, -, solid⟩ := mem_sites.mp inside
    exact map_conn_site (by rintro empty; rw [empty] at solid; exact solid rfl) (routed sc member)
  have dns : (dnsLines p).map Prod.snd = if p.dns ≠ [] then [.set "dns".toList (commas p.dns)] else [] := by
    rw [dnsLines]
    split <;> rfl
  simp only [ServerParams.lines, List.map_append, List.map_cons, List.map_nil, each, map_conn_shared, dns, document, within,
    List.append_assoc, List.cons_append, List.nil_append]

theorem closed_connection {remote selectors : List Event} (first : Closed remote) (second : Closed selectors) :
    Closed (connection p connName remote selectors) := by
  have local' : Closed (within "local".toList
      [.set "auth".toList "pubkey".toList, .set "certs".toList p.serverCert, .set "id".toList p.serverID]) :=
    Closed.nil.set.set.set.within
  have children : Closed (within "children".toList (within "net".toList
      (.set "local_ts".toList p.localSelectors :: selectors ++
        [.set "esp_proposals".toList esp, .set "start_action".toList "none".toList]))) :=
    (second.set.append Closed.nil.set.set).within.within
  exact (((local'.set.set.set.append first.set.set.within).append children).append Closed.nil.set).within

theorem closed_document (sites : List SiteClient) : Closed (document p sites) := by
  have dns : Closed (if p.dns ≠ [] then [.set "dns".toList (commas p.dns)] else []) := by
    split
    · exact Closed.nil.set
    · exact Closed.nil
  exact ((closed_connection Closed.nil Closed.nil).append
    (Closed.flatMap (fun _ => closed_connection Closed.nil.set Closed.nil.set) sites)).within.append dns.set.within.within

theorem endsName_sanitizeChar (c : Char) : Sections.endsName (sanitizeChar c) = false := by
  unfold sanitizeChar
  split
  · rename_i kept
    simp only [Bool.or_eq_true, Bool.and_eq_true, decide_eq_true_eq] at kept
    have apart : ∀ d ∈ [' ', '\t', '\r', '\n', '#', '\x7d', '\x7b', '='], c ≠ d := by
      rintro d inside rfl
      revert kept
      simp only [List.mem_cons, List.not_mem_nil, or_false] at inside
      rcases inside with rfl | rfl | rfl | rfl | rfl | rfl | rfl | rfl <;> decide
    simp only [List.forall_mem_cons] at apart
    simp [Sections.endsName, Sections.endsValue, Sections.blank, apart]
  · rfl

theorem isName_sanitizeName (t : Text) : IsName (sanitizeName t) := by
  unfold sanitizeName
  split
  · decide +kernel
  · rename_i some'
    refine ⟨by simpa using some', fun c inside => ?_⟩
    obtain ⟨d, -, rfl⟩ := List.mem_map.mp inside
    exact endsName_sanitizeChar d

theorem isName_append {a b : Text} (first : IsName a) (second : ∀ c ∈ b, Sections.endsName c = false) : IsName (a ++ b) :=
  ⟨by simp [first.1], List.forall_mem_append.mpr ⟨first.2, second⟩⟩

theorem isName_pool (name : IsName p.name) : IsName (p.name ++ "-pool".toList) := isName_append name (by decide +kernel)

theorem isName_siteName (name : IsName p.name) (sc : SiteClient) : IsName (p.siteName sc) := by
  refine isName_append name (List.forall_mem_cons.mpr ⟨rfl, (isName_sanitizeName sc.cn).2⟩)

/-- A connection is plain if the texts in it are. -/
theorem plain_connection {remote selectors : List Event} :
    (∀ e ∈ connection p connName remote selectors, e.Plain) ↔
      IsName connName ∧ IsValue (p.name ++ "-pool".toList) ∧ IsValue p.serverCert ∧ IsValue p.serverID ∧
        IsValue p.caCertFile ∧ (∀ e ∈ remote, e.Plain) ∧ IsValue p.localSelectors ∧ ∀ e ∈ selectors, e.Plain := by
  have names : ∀ t ∈ ["version", "pools", "local_addrs", "local", "auth", "certs", "id", "remote", "cacerts", "children", "net",
      "local_ts", "esp_proposals", "start_action", "proposals"], IsName t.toList := by decide +kernel
  have values : ∀ t ∈ ["2", "%any", "pubkey", "none"], IsValue t.toList := by decide +kernel
  have proposals : IsValue esp := by decide +kernel
  simp only [List.forall_mem_cons, List.not_mem_nil, false_imp_iff, implies_true, and_true] at names values
  simp only [connection, Sections.forall_mem_within, List.forall_mem_append, List.forall_mem_cons, List.not_mem_nil,
    false_imp_iff, implies_true, and_true, true_and, Sections.plain_enter, Sections.plain_set, Sections.plain_leave, names,
    values, proposals, and_assoc]

/-- What the texts of the server and of the sites have to be. -/
theorem plain_document {sites : List SiteClient} :
    (∀ e ∈ document p sites, e.Plain) ↔
      IsName p.name ∧ IsValue p.serverCert ∧ IsValue p.serverID ∧ IsValue p.caCertFile ∧ IsValue p.localSelectors ∧
        IsValue p.pool ∧ (p.dns ≠ [] → IsValue (commas p.dns)) ∧
          ∀ sc ∈ sites, IsValue sc.cn ∧ IsValue sc.remoteSelectors := by
  have names : ∀ t ∈ ["connections", "pools", "addrs", "dns", "id", "remote_ts"], IsName t.toList := by decide +kernel
  have dns : (∀ e ∈ if p.dns ≠ [] then [Event.set "dns".toList (commas p.dns)] else [], e.Plain) ↔
      (p.dns ≠ [] → IsValue (commas p.dns)) := by
    have key := names "dns" (by decide)
    split
    · rename_i given
      simp only [List.forall_mem_cons, List.not_mem_nil, false_imp_iff, implies_true, and_true, Sections.plain_set, key,
        true_and]
      exact ⟨fun value _ => value, fun value => value given⟩
    · rename_i given
      simp only [List.not_mem_nil, false_imp_iff, implies_true, given]
  have sections : (∀ e ∈ sites.flatMap (siteConnection p), e.Plain) ↔ ∀ sc ∈ sites, ∀ e ∈ siteConnection p sc, e.Plain := by
    simp only [List.mem_flatMap]
    exact ⟨fun all sc inside e here => all e ⟨sc, inside, here⟩, fun all e ⟨sc, inside, here⟩ => all sc inside e here⟩
  simp only [List.forall_mem_cons, List.not_mem_nil, false_imp_iff, implies_true, and_true] at names
  simp only [document, Sections.forall_mem_within, List.forall_mem_append, List.forall_mem_cons, sections, dns, siteConnection,
    plain_connection, List.not_mem_nil, false_imp_iff, implies_true, and_true, true_and, Sections.plain_enter,
    Sections.plain_set, Sections.plain_leave, names]
  constructor
  · rintro ⟨⟨⟨name, -, cert, id, ca, ts⟩, sites⟩, -, pool, dns⟩
    exact ⟨name, cert, id, ca, ts, pool, dns, fun sc inside => ⟨(sites sc inside).2.2.2.2.2.1, (sites sc inside).2.2.2.2.2.2.2⟩⟩
  · rintro ⟨name, cert, id, ca, ts, pool, dns, sites⟩
    have pools := (isName_pool name).isValue
    exact ⟨⟨⟨name, pools, cert, id, ca, ts⟩, fun sc inside => ⟨isName_siteName name sc, pools, cert, id, ca,
      (sites sc inside).1, ts, (sites sc inside).2⟩⟩, isName_pool name, pool, dns⟩

theorem length_document (sites : List SiteClient) :
    (document p sites).length = (document p []).length + 24 * sites.length := by
  have each : ∀ sc, (siteConnection p sc).length = 24 := fun _ => rfl
  simp only [document, within, List.flatMap_nil, List.length_append, List.length_cons, List.length_flatMap, each,
    List.map_const', List.sum_replicate_nat, List.length_nil]
  omega

/-- With plain texts, the clients that have a name are there. -/
theorem parse_renderConnections (routed : ∀ sc ∈ p.siteClients, sc.remoteSelectors ≠ [])
    (plain : ∀ e ∈ document p p.sites, e.Plain) : Sections.parse p.renderConnections = some (document p p.sites) := by
  have note : p.renderConnections = '#' :: " Managed by Protean.".toList ++ '\n' :: Sections.write p.lines := rfl
  have same := map_lines routed
  rw [note, Sections.parse_comment (by decide +kernel), ← same]
  refine (Sections.parse_write_iff blank_lines ?_).mpr fun l inside => plain l.2 ?_
  · rw [same]
    exact (closed_document p.sites).nested
  · rw [← same]
    exact List.mem_map_of_mem inside

theorem perm_sites (named : ∀ sc ∈ p.siteClients, sc.subnets ≠ [] ∧ Text.trimSpace sc.cn ≠ []) :
    p.sites.Perm p.siteClients := by
  have all : p.sites = p.siteClients.insertionSort fun a b => textLE a.cn b.cn = true := by
    rw [ServerParams.sites, List.filter_eq_self]
    intro sc inside
    have := named sc ((List.mem_insertionSort _).mp inside)
    simp [this]
  rw [all]
  exact List.perm_insertionSort _ _

theorem nodup_siteName {sites : List SiteClient} :
    (p.name :: sites.map p.siteName).Nodup ↔ (sites.map fun sc => sanitizeName sc.cn).Nodup := by
  have outer : sites.map p.siteName = (sites.map fun sc => sanitizeName sc.cn).map fun t => p.name ++ '-' :: t := by
    rw [List.map_map]
    rfl
  have injective : Function.Injective fun t : Text => p.name ++ '-' :: t := by
    intro a b same
    simpa using same
  rw [List.nodup_cons, outer, List.nodup_map_iff injective]
  refine and_iff_right fun inside => ?_
  obtain ⟨t, -, same⟩ := List.mem_map.mp inside
  simp at same

theorem faithful_iff (routed : ∀ sc ∈ p.siteClients, sc.subnets ≠ [] ∧ sc.remoteSelectors ≠ []) :
    Faithful p ↔ WellFormed p := by
  have selectors : ∀ sc ∈ p.siteClients, sc.remoteSelectors ≠ [] := fun sc inside => (routed sc inside).2
  constructor
  · rintro ⟨sites, perm, read, distinct⟩
    have plain := Sections.plain_of_parse read
    obtain ⟨name, cert, id, ca, ts, pool, dns, each⟩ := plain_document.mp plain
    have here : ∀ sc ∈ p.siteClients, IsValue sc.cn ∧ IsValue sc.remoteSelectors :=
      fun sc inside => each sc (perm.mem_iff.mpr inside)
    have solid : ∀ sc ∈ p.siteClients, Text.trimSpace sc.cn ≠ [] := by
      -- a client that is passed over is missed in the count of the sections
      have rendered := parse_renderConnections selectors (plain_document.mpr ⟨name, cert, id, ca, ts, pool, dns,
        fun sc inside => here sc (mem_sites.mp inside).1⟩)
      rw [read, Option.some.injEq] at rendered
      have count := congrArg List.length rendered
      rw [length_document, length_document p.sites, perm.length_eq] at count
      have full : (p.siteClients.insertionSort fun a b => textLE a.cn b.cn = true).length ≤ p.sites.length := by
        rw [List.length_insertionSort]
        omega
      have kept : p.sites = p.siteClients.insertionSort fun a b => textLE a.cn b.cn = true :=
        List.filter_sublist.eq_of_length_le full
      intro sc inside
      refine (mem_sites (p := p).mp ?_).2.2
      rw [kept]
      exact (List.mem_insertionSort _).mpr inside
    exact ⟨name, cert, id, ca, ts, pool, dns, fun sc inside => ⟨(here sc inside).1, solid sc inside⟩,
      fun sc inside => (here sc inside).2, (perm.map _).nodup_iff.mp (nodup_siteName.mp distinct)⟩
  · intro fit
    have perm := perm_sites fun sc inside => ⟨(routed sc inside).1, (fit.id sc inside).2⟩
    refine ⟨p.sites, perm, parse_renderConnections selectors (plain_document.mpr ⟨fit.name, fit.serverCert, fit.serverID,
      fit.caCertFile, fit.localTS, fit.pool, fit.dns, fun sc inside => ?_⟩), ?_⟩
    · have member := perm.mem_iff.mp inside
      exact ⟨(fit.id sc member).1, fit.subnets sc member⟩
    · exact nodup_siteName.mpr ((perm.map _).nodup_iff.mpr fit.names)

end

end Protean.Ikev2
