import Protean.Run
import Protean.Xray.Provider

namespace Protean.Xray

variable {J B : Type} (k : Codecs J B)

/-- The clients in the store. -/
def stored (t : Site B) : Option (List Client) := (listed k t).mapM (readRow k)

section
variable {k} {t : Site B} {clients : List Client} {c : Client}

theorem stored_of_clientsOf {l : Listing} (read : clientsOf k l t = some clients) : stored k t = some clients := by
  unfold clientsOf at read
  split at read
  · refine List.mapM_option_eq_some.mpr ((List.mapM_option_eq_some.mp read).imp fun row c found => ?_)
    split at found
    · exact found
    · cases found
  · cases read

theorem name_of_readRow {row : Text × B} (read : readRow k row = some c) : c.name = row.1 := by
  obtain ⟨_, _, rfl⟩ := Option.map_eq_some_iff.mp read
  rfl

theorem mem_stored_iff (read : stored k t = some clients) :
    c ∈ clients ↔ ∃ blob, t.clients.get c.name = some blob ∧ readRow k (c.name, blob) = some c := by
  rw [List.mem_mapM_option_iff read]
  constructor
  · rintro ⟨⟨name, blob⟩, row, found⟩
    have same : c.name = name := name_of_readRow found
    subst same
    exact ⟨blob, KeyTable.get_eq_some_iff.mpr ((List.mem_insertionSort _).mp row), found⟩
  · rintro ⟨blob, here, found⟩
    exact ⟨(c.name, blob), (List.mem_insertionSort _).mpr (KeyTable.get_eq_some_iff.mp here), found⟩

theorem readRow_sealed (n : Nat) (c : Client) : readRow k (c.name, k.sealBlob n (k.writeClient c)) = some c := by
  rw [readRow, k.open_seal, Option.bind_some, k.read_client]
  rfl

theorem mem_stored_withClient {n : Nat} {new : Client} {after : List Client} (read : stored k t = some clients)
    (read' : stored k (t.withClient k n new) = some after) :
    c ∈ after ↔ c = new ∨ c ∈ clients ∧ c.name ≠ new.name := by
  rw [mem_stored_iff read', Site.withClient]
  dsimp only
  rw [KeyTable.get_upsert]
  by_cases same : c.name = new.name
  · rw [if_pos same, same]
    constructor
    · rintro ⟨blob, here, found⟩
      cases here
      rw [readRow_sealed] at found
      exact .inl (Option.some.inj found).symm
    · rintro (rfl | ⟨_, other⟩)
      · exact ⟨_, rfl, readRow_sealed n c⟩
      · exact absurd rfl other
  · rw [if_neg same, ← mem_stored_iff read]
    constructor
    · exact fun old => .inr ⟨old, same⟩
    · rintro (rfl | ⟨old, _⟩)
      · exact absurd rfl same
      · exact old

theorem mem_stored_without {name : Text} {after : List Client} (read : stored k t = some clients)
    (read' : stored k (t.without name) = some after) : c ∈ after ↔ c ∈ clients ∧ c.name ≠ name := by
  rw [mem_stored_iff read', mem_stored_iff read, Site.without]
  dsimp only
  rw [KeyTable.get_delete]
  by_cases same : c.name = name
  · simp [same]
  · simp [same]

end

/-- The credentials the config on the host lets in. -/
def Site.accepted (t : Site B) : List Credential := t.config.elim [] fun h => credentials h.conf

/-- Every link works, and nothing else does. -/
structure Valid (t : Site B) : Prop where
  links : ∀ r modules l host links, ((clientLinks k r modules l host).exec t).1 = some links →
    ∀ name link, (name, link) ∈ links → ∃ cred, link.credential = some cred ∧ cred.value ≠ [] ∧
      (∀ row s, t.row = some row → row.strategy = Builtin.name s → cred.kind = s.cred) ∧ cred ∈ t.accepted
  accepted : ∀ cred ∈ t.accepted, cred.value ≠ [] ∧
    ∃ clients c, stored k t = some clients ∧ c ∈ clients ∧ c.cred cred.kind = cred.value

/-- Clients that a strategy can take over. -/
structure Suits (s : Builtin) (clients : List Client) : Prop where
  present : ∀ c ∈ clients, c.cred s.cred ≠ []
  shared : s.multiClient = false → ∀ c ∈ clients, ∀ d ∈ clients, c.password = d.password

/-- The config on the host is that of the rows. -/
structure Live (t : Site B) (s : Builtin) (inst : Instance) (clients : List Client) : Prop where
  row : t.row.bind (decode k) = some inst
  strategy : inst.strategy = s.name
  kept : stored k t = some clients
  nonempty : clients ≠ []
  accepted : t.accepted = Xray.accepted (s.inboundOf inst.params clients)

section
variable {k} {t : Site B} {s : Builtin} {inst : Instance} {clients : List Client}

theorem strategy_of_decode {row : InstanceRow B} (read : decode k row = some inst) : inst.strategy = row.strategy := by
  obtain ⟨p, _, read⟩ := Option.bind_eq_some_iff.mp read
  obtain ⟨c, _, read⟩ := Option.bind_eq_some_iff.mp read
  cases read
  rfl

/-- A link is that of a stored client. -/
theorem Live.of_mem_clientLinks (live : Live k t s inst clients) {r : Reading} {modules : Text → Option StrategyMethods}
    {l : Listing} {host : Text} {links : List (Text × ShareLink)}
    (made : ((clientLinks k r modules l host).exec t).1 = some links) {name : Text} {link : ShareLink}
    (member : (name, link) ∈ links) : ∃ c ∈ clients, link.credential = some ⟨s.cred, c.cred s.cred⟩ := by
  unfold clientLinks at made
  rw [Proc.exec_bind, exec_readInstance] at made
  cases read : instanceOf k r t with
  | none => rw [read] at made; cases made
  | some inst' =>
    rw [read, Option.some.inj ((decode_of_instanceOf k read).symm.trans live.row)] at made
    dsimp only at made
    rw [Proc.exec_lift_bind, live.strategy, get_name] at made
    dsimp only at made
    rw [Proc.exec_bind, exec_listClients] at made
    cases listed : clientsOf k l t with
    | none => rw [listed] at made; cases made
    | some clients' =>
      rw [listed] at made
      obtain ⟨c, stored, linked⟩ := (List.mem_mapM_option_iff made).mp member
      obtain ⟨link', made', same⟩ := Option.map_eq_some_iff.mp linked
      obtain rfl : link' = link := congrArg Prod.snd same
      have clients' := Option.some.inj ((stored_of_clientsOf listed).symm.trans live.kept)
      subst clients'
      exact ⟨c, stored, Builtin.credential_clientLink made'⟩

theorem Live.kind (live : Live k t s inst clients) {row : InstanceRow B} {s' : Builtin} (here : t.row = some row)
    (named : row.strategy = s'.name) : s' = s := by
  have read := live.row
  rw [here, Option.bind_some] at read
  have same : s'.name = s.name := by rw [← named, ← strategy_of_decode read, live.strategy]
  have found := s'.find_name
  rw [same, s.find_name] at found
  exact (Option.some.inj found).symm

/-- Where every read works, there is a link for each client. -/
theorem Live.clientLinks_eq (live : Live k t s inst clients) (host : Text) :
    ((clientLinks k {} (fun _ => none) {} host).exec t).1 =
      clients.mapM fun c => (s.clientLink inst.params c host).map (c.name, ·) := by
  have read : instanceOf k {} t = some inst := by
    unfold instanceOf
    cases here : t.row with
    | none => exact absurd live.row (by simp [here])
    | some row =>
      have decoded := live.row
      rw [here] at decoded
      simpa [Reading.works] using decoded
  have listed : clientsOf k {} t = some clients := live.kept
  unfold clientLinks
  rw [Proc.exec_bind, exec_readInstance, read]
  dsimp only
  rw [Proc.exec_lift_bind, live.strategy, get_name]
  dsimp only
  rw [Proc.exec_bind, exec_listClients, listed]
  rfl

theorem Live.accepted_eq (live : Live k t s inst clients) : t.accepted =
    if s.multiClient then clients.map fun c => ⟨s.cred, c.cred s.cred⟩
    else [⟨s.cred, clients.head?.elim [] Client.password⟩] :=
  live.accepted.trans (s.accepted_inboundOf inst.params clients)

theorem Live.suits_of_multi (live : Live k t s inst clients) (multi : s.multiClient = true) (valid : Valid k t) :
    Suits s clients := by
  refine ⟨fun c member => ?_, fun single => by rw [multi] at single; cases single⟩
  refine (valid.accepted ⟨s.cred, c.cred s.cred⟩ ?_).1
  rw [live.accepted_eq, if_pos multi]
  exact List.mem_map_of_mem member

/-- With one password for all, the link of every client must carry it. -/
theorem Live.suits_of_single (live : Live k t s inst clients) (single : s.multiClient = false) (valid : Valid k t) :
    Suits s clients := by
  obtain rfl : s = .shadowsocks2022 := by cases s <;> first | rfl | cases single
  let link (c : Client) : ShareLink := .shadowsocks (inst.params.get "ss_method" Builtin.ssMethod) c.password []
    (portOf inst.params Builtin.shadowsocks2022.defaultPort) (linkName c [])
  have all : (clients.mapM fun c => (Builtin.shadowsocks2022.clientLink inst.params c []).map (c.name, ·)) =
      some (clients.map fun c => (c.name, link c)) :=
    List.mapM_option_eq_some.mpr (List.forall₂_map_right_iff.mpr (List.forall₂_same.mpr fun _ _ => rfl))
  have made := (live.clientLinks_eq []).trans all
  have each : ∀ c ∈ clients, c.password ≠ [] ∧ c.password = clients.head?.elim [] Client.password := by
    intro c member
    obtain ⟨cred, carried, value, _, inside⟩ := valid.links _ _ _ _ _ made _ _ (List.mem_map_of_mem member)
    cases carried
    rw [live.accepted_eq] at inside
    exact ⟨value, congrArg Credential.value (List.mem_singleton.mp inside)⟩
  exact ⟨fun c member => (each c member).1, fun _ c member d member' => (each c member).2.trans (each d member').2.symm⟩

theorem Live.mem_accepted (live : Live k t s inst clients) (suits : Suits s clients) {c : Client}
    (member : c ∈ clients) :
    ⟨s.cred, c.cred s.cred⟩ ∈ t.accepted := by
  rw [live.accepted_eq]
  cases multi : s.multiClient with
  | true =>
    rw [if_pos rfl]
    exact List.mem_map_of_mem member
  | false =>
    obtain rfl : s = .shadowsocks2022 := by cases s <;> first | rfl | cases multi
    cases clients with
    | nil => cases member
    | cons first rest =>
      exact List.mem_singleton.mpr (congrArg _ (suits.shared rfl c member first (List.mem_cons_self ..)))

theorem Live.of_mem_accepted (live : Live k t s inst clients) {cred : Credential} (inside : cred ∈ t.accepted) :
    ∃ c ∈ clients, cred = ⟨s.cred, c.cred s.cred⟩ := by
  rw [live.accepted_eq] at inside
  cases multi : s.multiClient with
  | true =>
    rw [multi, if_pos rfl] at inside
    obtain ⟨c, member, rfl⟩ := List.mem_map.mp inside
    exact ⟨c, member, rfl⟩
  | false =>
    obtain rfl : s = .shadowsocks2022 := by cases s <;> first | rfl | cases multi
    have nonempty := live.nonempty
    cases clients with
    | nil => exact absurd rfl nonempty
    | cons first rest => exact ⟨first, List.mem_cons_self .., List.mem_singleton.mp inside⟩

theorem Live.valid_iff (live : Live k t s inst clients) : Valid k t ↔ Suits s clients := by
  constructor
  · intro valid
    cases multi : s.multiClient with
    | true => exact live.suits_of_multi multi valid
    | false => exact live.suits_of_single multi valid
  · intro suits
    constructor
    · intro r modules l host links made name link member
      obtain ⟨c, stored, carried⟩ := live.of_mem_clientLinks made member
      refine ⟨_, carried, suits.present c stored, fun row s' here named => ?_, live.mem_accepted suits stored⟩
      rw [live.kind here named]
    · intro cred inside
      obtain ⟨c, member, rfl⟩ := live.of_mem_accepted inside
      exact ⟨suits.present c member, clients, c, live.kept, member, rfl⟩

/-- A rebuild that goes through makes the site live. -/
theorem live_of_rebuild {e : Rebuilding} {t' : Site B} {row : InstanceRow B} (here : t.row = some row)
    (named : row.strategy = s.name) (done : (rebuild k e).exec t = (some (), t')) :
    ∃ inst clients, Live k t' s inst clients ∧ stored k t = some clients ∧ t'.row = some row := by
  obtain ⟨_, _, _, h, made, rfl⟩ := (exec_rebuild_eq_some_iff k).mp done
  obtain ⟨strat, clients, inbound, relays, read, known, listed, built, _, whole⟩ := of_built k made
  have decoded := decode_of_instanceOf k read
  have strategy : h.builtFrom.strategy = s.name := by
    rw [here, Option.bind_some] at decoded
    rw [strategy_of_decode decoded, named]
  rw [strategy, get_name] at known
  cases known
  obtain ⟨_, nonempty, rfl⟩ := Builtin.of_buildInbound built
  have stored := stored_of_clientsOf listed
  exact ⟨h.builtFrom, clients, ⟨decoded, strategy, stored, nonempty, credentials_buildServerConfig whole⟩, stored, here⟩

theorem name_newClient (name : Text) (kind : CredKind) (cred : Text) : (newClient name kind cred).name = name := by
  cases kind <;> rfl

theorem cred_newClient (name : Text) (kind : CredKind) (cred : Text) : (newClient name kind cred).cred kind = cred := by
  cases kind <;> rfl

end

/-- A call of the provider, with a strategy of the panel. -/
inductive Op
  | apply (e : Applying) (s : Builtin) (params : Params) (relays : Option (List RelaySpec))
  | addClient (e : Adding) (name : Text)
  | removeClient (e : Removing) (name : Text)

namespace Op

def proc : Op → Proc (Site B) Unit
  | .apply e s params relays => Xray.apply k e s.name params relays
  | .addClient e name => Xray.addClient k e name
  | .removeClient e name => Xray.removeClient k e name

def step (t : Site B) (op : Op) : Site B := ((op.proc k).exec t).2

def Succeeds (t : Site B) (op : Op) : Prop := ((op.proc k).exec t).1 = some ()

/-- A strategy takes over only clients that suit it. No client is added beside the one of a
strategy for one client, which can happen while the clients cannot be listed. -/
def Safe (t : Site B) : Op → Prop
  | .apply _ s _ _ => ∀ clients, stored k t = some clients → Suits s clients
  | .addClient e name => ∀ row s clients random, t.row = some row → row.strategy = Builtin.name s →
      s.multiClient = false → stored k t = some clients → e.random = some random →
      ∀ c ∈ clients, c.name ≠ Text.trimSpace name → c.password = newPassword random
  | .removeClient _ _ => True

end Op

section
variable {k} {t t' : Site B} {s : Builtin} {inst : Instance} {clients : List Client}

/-- A client is added beside the others, or in the place of one. -/
theorem live_of_addClient {e : Adding} {name : Text} {row : InstanceRow B} (here : t.row = some row)
    (named : row.strategy = s.name) (kept : stored k t = some clients)
    (done : (addClient k e name).exec t = (some (), t')) :
    ∃ inst after random, Live k t' s inst after ∧ e.random = some random ∧ t'.row = some row ∧ ∀ c, c ∈ after ↔
      c = newClient (Text.trimSpace name) s.cred (s.cred.new random) ∨ c ∈ clients ∧ c.name ≠ Text.trimSpace name := by
  obtain ⟨n, new, added, rebuilt⟩ := exec_addClient_eq_some k done
  obtain ⟨inst', strat, random, read, known, _, drawn, rfl⟩ := of_addedClient k added
  have strategy : inst'.strategy = s.name := by
    have decoded := decode_of_instanceOf k read
    rw [here, Option.bind_some] at decoded
    rw [strategy_of_decode decoded, named]
  rw [strategy, get_name] at known
  cases known
  obtain ⟨inst, after, live, kept', here'⟩ := live_of_rebuild (t := t.withClient k n _) here named rebuilt
  refine ⟨inst, after, random, live, drawn, here', fun c => ?_⟩
  have members := mem_stored_withClient (c := c) kept kept'
  rwa [name_newClient] at members

theorem live_of_apply {e : Applying} {params : Params} {relays : Option (List RelaySpec)}
    (done : (apply k e s.name params relays).exec t = (some (), t')) :
    ∃ inst clients after, Live k t' s inst after ∧ stored k t = some clients ∧ (Suits s after ↔ Suits s clients) := by
  obtain ⟨row, saved, done⟩ := exec_apply_eq_some k done
  obtain ⟨_, _, _, _, sealed'⟩ := of_appliedRow k saved
  have named := strategy_of_sealedRow k sealed'
  obtain ⟨clients, t₁, listed, done⟩ := Proc.exec_bind_eq_some_iff.mp done
  rw [exec_listClients] at listed
  obtain ⟨read, rfl⟩ := Prod.mk.inj listed
  have kept : stored k { t with row := some row } = some clients := stored_of_clientsOf read
  obtain ⟨u, t₂, added, rebuilt⟩ := Proc.exec_bind_eq_some_iff.mp done
  cases clients with
  | nil =>
    obtain ⟨_, first, random, live, _, here, members⟩ :=
      live_of_addClient (t := { t with row := some row }) rfl named kept added
    obtain ⟨inst, after, live', kept', _⟩ := live_of_rebuild here named rebuilt
    obtain rfl : first = after := Option.some.inj (live.kept.symm.trans kept')
    refine ⟨inst, [], first, live', kept, iff_of_true ?_ ⟨nofun, fun _ _ => nofun⟩⟩
    have only : ∀ c ∈ first, c = newClient (Text.trimSpace "default".toList) s.cred (s.cred.new random) := by
      intro c member
      exact ((members c).mp member).resolve_right fun old => by cases old.1
    refine ⟨fun c member => ?_, fun _ c member d member' => by rw [only c member, only d member']⟩
    rw [only c member, cred_newClient]
    exact s.cred.new_ne_nil random
  | cons c rest =>
    obtain ⟨_, rfl⟩ := Prod.mk.inj added
    obtain ⟨inst, after, live, kept', _⟩ := live_of_rebuild (t := { t with row := some row }) rfl named rebuilt
    obtain rfl : c :: rest = after := Option.some.inj (kept.symm.trans kept')
    exact ⟨inst, c :: rest, c :: rest, live, kept, Iff.rfl⟩

theorem Live.row_named (live : Live k t s inst clients) : ∃ row, t.row = some row ∧ row.strategy = s.name := by
  obtain ⟨row, here, decoded⟩ := Option.bind_eq_some_iff.mp live.row
  exact ⟨row, here, (strategy_of_decode decoded).symm.trans live.strategy⟩

theorem Live.addClient (live : Live k t s inst clients) {e : Adding} {name : Text}
    (done : (Xray.addClient k e name).exec t = (some (), t')) :
    ∃ inst after, Live k t' s inst after ∧ (Suits s clients → (Suits s after ↔ Op.Safe k t (.addClient e name))) := by
  obtain ⟨row, here, named⟩ := live.row_named
  obtain ⟨inst', after, random, live', drawn, _, members⟩ := live_of_addClient here named live.kept done
  refine ⟨inst', after, live', fun suits => ?_⟩
  have new := (members _).mpr (.inl rfl)
  constructor
  · intro suits' row' s' clients' random' here' named' single kept drawn' c member other
    obtain rfl := live.kind here' named'
    obtain rfl : clients = clients' := Option.some.inj (live.kept.symm.trans kept)
    obtain rfl : random = random' := Option.some.inj (drawn.symm.trans drawn')
    obtain rfl : s' = .shadowsocks2022 := by cases s' <;> first | rfl | cases single
    exact suits'.shared rfl c ((members c).mpr (.inr ⟨member, other⟩)) _ new
  · intro safe
    refine ⟨fun c member => ?_, fun single => ?_⟩
    · rcases (members c).mp member with rfl | ⟨old, _⟩
      · rw [cred_newClient]
        exact s.cred.new_ne_nil random
      · exact suits.present c old
    · have same : ∀ c ∈ after, c.password = newPassword random := by
        intro c member
        obtain rfl : s = .shadowsocks2022 := by cases s <;> first | rfl | cases single
        rcases (members c).mp member with rfl | ⟨old, other⟩
        · rfl
        · exact safe row _ clients random here named rfl live.kept drawn c old other
      exact fun c member d member' => (same c member).trans (same d member').symm

theorem Live.removeClient (live : Live k t s inst clients) {e : Removing} {name : Text}
    (done : (Xray.removeClient k e name).exec t = (some (), t')) :
    ∃ inst after, Live k t' s inst after ∧ (Suits s clients → Suits s after) := by
  obtain ⟨row, here, named⟩ := live.row_named
  obtain ⟨inst', after, live', kept', _⟩ :=
    live_of_rebuild (t := t.without name) here named (exec_removeClient_eq_some k done)
  have members : ∀ c ∈ after, c ∈ clients := fun c member => ((mem_stored_without live.kept kept').mp member).1
  refine ⟨inst', after, live', fun suits => ⟨fun c member => suits.present c (members c member), ?_⟩⟩
  exact fun single c member d member' => suits.shared single c (members c member) d (members d member')

/-- Nothing is set up yet, or the host has the config of the rows. -/
def Consistent (k : Codecs J B) (t : Site B) : Prop :=
  t.row = none ∨ ∃ s inst clients, Live k t s inst clients

theorem instanceOf_of_unset {r : Reading} (unset : t.row = none) : instanceOf k r t = none := by
  rw [instanceOf, unset, Option.bind_none]

theorem Op.live_step {op : Op} (consistent : Consistent k t) (done : op.Succeeds k t) :
    ∃ s inst after, Live k (op.step k t) s inst after ∧ (Valid k t → (Suits s after ↔ op.Safe k t)) := by
  have ends : (op.proc k).exec t = (some (), op.step k t) := Prod.ext done rfl
  cases op with
  | apply e s params relays =>
    obtain ⟨inst, clients, after, live, kept, suits⟩ := live_of_apply ends
    refine ⟨s, inst, after, live, fun _ => suits.trans ⟨fun holds clients' kept' => ?_, fun safe => safe clients kept⟩⟩
    rwa [← Option.some.inj (kept.symm.trans kept')]
  | addClient e name =>
    rcases consistent with unset | ⟨s, inst, clients, live⟩
    · obtain ⟨n, c, added, _⟩ := exec_addClient_eq_some k ends
      obtain ⟨inst, _, _, read, _⟩ := of_addedClient k added
      rw [instanceOf_of_unset unset] at read
      cases read
    · obtain ⟨inst', after, live', exact⟩ := live.addClient ends
      exact ⟨s, inst', after, live', fun valid => exact (live.valid_iff.mp valid)⟩
  | removeClient e name =>
    rcases consistent with unset | ⟨s, inst, clients, live⟩
    · obtain ⟨_, _, _, h, made, _⟩ := (exec_rebuild_eq_some_iff k).mp (exec_removeClient_eq_some k ends)
      obtain ⟨_, _, _, _, read, _⟩ := of_built k made
      rw [instanceOf_of_unset (t := t.without name) unset] at read
      cases read
    · obtain ⟨inst', after, live', keeps⟩ := live.removeClient ends
      exact ⟨s, inst', after, live', fun valid => iff_of_true (keeps (live.valid_iff.mp valid)) trivial⟩

end

theorem valid_fresh : Valid k (Site.fresh B) := by
  constructor
  · intro r modules l host links made
    have read : instanceOf k r (Site.fresh B) = none := instanceOf_of_unset rfl
    rw [clientLinks, Proc.exec_bind, exec_readInstance, read] at made
    cases made
  · exact fun cred inside => by cases inside

/-- After successful calls every link works and nothing else does, exactly if no strategy
takes over clients without its credential, or several where it has one password. -/
theorem credentials_valid_iff (ops : List Op)
    (succeed : Run.Meets (Op.step k) (Op.Succeeds k) (Site.fresh B) ops) :
    (∀ first, first <+: ops → Valid k (Run.after (Op.step k) (Site.fresh B) first)) ↔
      Run.Meets (Op.step k) (Op.Safe k) (Site.fresh B) ops := by
  have unset : Consistent k (Site.fresh B) := .inl rfl
  have keeps : ∀ t op, Consistent k t → Op.Succeeds k t op → Consistent k (op.step k t) := by
    intro t op consistent done
    obtain ⟨s, inst, after, live, _⟩ := Op.live_step consistent done
    exact .inr ⟨s, inst, after, live⟩
  have exact : ∀ t op, Consistent k t → Valid k t → Op.Succeeds k t op → (Valid k (op.step k t) ↔ op.Safe k t) := by
    intro t op consistent valid done
    obtain ⟨s, inst, after, live, safe⟩ := Op.live_step consistent done
    rw [live.valid_iff]
    exact safe valid
  exact Run.Meets.throughout_iff_beside keeps exact unset (valid_fresh k) succeed

def visionParams : Params := [("domain", "vpn.example.com".toList)]

/-- Another strategy with the same kind of credential. -/
def visionToVmess : List Op := [.apply {} .vlessVisionTLS visionParams none, .apply {} .vmessWSTLS visionParams none]

def defaultClient : Client := newClient "default".toList .uuid (newUUID (Vector.replicate 16 0))

theorem credentials_valid_sample : Run.Meets (Op.step plain) (Op.Succeeds plain) (Site.fresh _) visionToVmess ∧
    Valid plain (Run.after (Op.step plain) (Site.fresh _) visionToVmess) := by
  have succeed : Run.Meets (Op.step plain) (Op.Succeeds plain) (Site.fresh _) visionToVmess := by
    refine ⟨?_, ?_, trivial⟩ <;> (unfold Op.Succeeds; decide +kernel)
  have kept : stored plain (Op.step plain (Site.fresh _) (.apply {} .vlessVisionTLS visionParams none)) =
      some [defaultClient] := by decide +kernel
  have safe : Run.Meets (Op.step plain) (Op.Safe plain) (Site.fresh _) visionToVmess := by
    refine ⟨fun clients none => ?_, fun clients one => ?_, trivial⟩
    · cases none
      exact ⟨nofun, fun single => by cases single⟩
    · rw [kept] at one
      cases one
      exact ⟨by decide +kernel, fun single => by cases single⟩
  exact ⟨succeed, (credentials_valid_iff plain visionToVmess succeed).mpr safe _ List.prefix_rfl⟩

/-- From UUIDs to passwords. -/
def visionToTrojan : List Op := [.apply {} .vlessVisionTLS visionParams none, .apply {} .trojanTCPTLS visionParams none]

/-- From two clients to one password. -/
def trojanToShadowsocks : List Op :=
  [.apply {} .trojanTCPTLS visionParams none, .addClient { random := some (Vector.replicate 16 1) } "phone".toList,
    .apply {} .shadowsocks2022 [] none]

/-- A client without a password leaves an inbound that lets in the empty one, and of two
clients one has a link that is not let in. -/
theorem credentials_invalid :
    (Run.Meets (Op.step plain) (Op.Succeeds plain) (Site.fresh _) visionToTrojan ∧
      (Run.after (Op.step plain) (Site.fresh _) visionToTrojan).accepted = [⟨.password, []⟩] ∧
      ¬ Valid plain (Run.after (Op.step plain) (Site.fresh _) visionToTrojan)) ∧
    Run.Meets (Op.step plain) (Op.Succeeds plain) (Site.fresh _) trojanToShadowsocks ∧
      ¬ Valid plain (Run.after (Op.step plain) (Site.fresh _) trojanToShadowsocks) := by
  have empty : (Run.after (Op.step plain) (Site.fresh _) visionToTrojan).accepted = [⟨.password, []⟩] := by
    decide +kernel
  have one : (Run.after (Op.step plain) (Site.fresh _) trojanToShadowsocks).accepted =
      [⟨.password, newPassword (Vector.replicate 16 0)⟩] := by decide +kernel
  have links : ((clientLinks plain {} (fun _ => none) {} []).exec
      (Run.after (Op.step plain) (Site.fresh _) trojanToShadowsocks)).1 =
      some ([("default".toList, 0), ("phone".toList, 1)].map fun c =>
        (c.1, .shadowsocks Builtin.ssMethod (newPassword (Vector.replicate 16 c.2)) [] 8388 c.1)) := by decide +kernel
  refine ⟨⟨⟨?_, ?_, trivial⟩, empty, fun valid => ?_⟩, ⟨?_, ?_, ?_, trivial⟩, fun valid => ?_⟩
  · unfold Op.Succeeds; decide +kernel
  · unfold Op.Succeeds; decide +kernel
  · refine (valid.accepted ⟨.password, []⟩ ?_).1 rfl
    rw [empty]
    exact List.mem_singleton_self _
  · unfold Op.Succeeds; decide +kernel
  · unfold Op.Succeeds; decide +kernel
  · unfold Op.Succeeds; decide +kernel
  · obtain ⟨cred, carried, _, _, inside⟩ :=
      valid.links _ _ _ _ _ links _ _ (List.mem_cons_of_mem _ (List.mem_singleton_self _))
    cases carried
    rw [one] at inside
    exact absurd (List.mem_singleton.mp inside) (by decide +kernel)

end Protean.Xray
