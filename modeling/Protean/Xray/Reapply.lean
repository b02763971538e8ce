import Protean.Xray.Revocation

namespace Protean.Xray

/-- Without the links the relay chain is to stay as it is. -/
structure ApplyReq where
  strategy : Text
  params : Params
  relayLinks : Option (List Text) := none

structure ApiEnv where
  provider : Bool := true
  modules : Text → Option StrategyMethods := fun _ => none
  parseClientLink : Text → Option RelaySpec := fun _ => none
  apply : Applying := {}

/-- What is given for the parameters of the strategy. -/
def requestParams (specs : List ParamSpec) (given : Params) : Params :=
  specs.foldl (fun p s => if given.get s.key [] ≠ [] then setField p s.key (given.get s.key []) else p) []

def parseRelays (parse : Text → Option RelaySpec) (links : List Text) : Option (List RelaySpec) :=
  ((links.map Text.trimSpace).filter (· ≠ [])).mapM parse

variable {J B : Type} (k : Codecs J B)

def apiXrayApply (env : ApiEnv) (req : ApplyReq) : Proc (Site B) Unit := do
  Proc.guard env.provider
  let strat ← Proc.lift (get env.modules req.strategy)
  let relays ← match req.relayLinks with
    | none => pure none
    | some links => some <$> Proc.lift (parseRelays env.parseClientLink links)
  apply k env.apply req.strategy (requestParams strat.params req.params) relays

/-- A failure leaves the row as it is, and everything else leaves the relay chain and the
secrets in it. -/
def Preserves (env : ApiEnv) (req : ApplyReq) (row : InstanceRow B) (t : Site B) : Prop :=
  ((apiXrayApply k env req).exec t).1 = none ∧ ((apiXrayApply k env req).exec t).2.row = some row ∨
  ∃ row' chain, ((apiXrayApply k env req).exec t).2.row = some row' ∧
    chainOf k row = some chain ∧ chainOf k row' = some chain ∧
    ∀ strat, get env.apply.modules req.strategy = some strat → ∀ key ∈ secretParamKeys strat.instanceSecrets,
      ∀ p, paramsOf k row = some p → p.get key [] ≠ [] →
        ∃ q, paramsOf k row' = some q ∧ q.get key [] = p.get key []

/-- The request gets as far as the save, with these parameters. -/
structure Saves (env : ApiEnv) (req : ApplyReq) (t : Site B) (strat : StrategyMethods) (params : Params) : Prop where
  provider : env.provider = true
  known : get env.apply.modules req.strategy = some strat
  filled : ∃ api, get env.modules req.strategy = some api ∧
    finalParams env.apply strat (current k env.apply.read req.strategy t)
      (requestParams api.params req.params) = some params
  closed : (sealedRow k env.apply.persist req.strategy params
    ((current k env.apply.read req.strategy t).elim [] Instance.relays)).isSome
  saved : env.apply.persist.saveInstance ≠ .failed

def Readable (r : Reading) (row : InstanceRow B) : Prop := r.works row = true ∧ (decode k row).isSome

/-- What is saved has the stored secrets, and where the instance cannot be read there was no relay. -/
def ReapplySafe (env : ApiEnv) (req : ApplyReq) (row : InstanceRow B) (t : Site B) : Prop :=
  ∀ strat params, Saves k env req t strat params →
    (¬ Readable k env.apply.read row → chainOf k row = some []) ∧
    ∀ key ∈ secretParamKeys strat.instanceSecrets, ∀ p, paramsOf k row = some p → p.get key [] ≠ [] →
      params.get key [] = p.get key []

variable {req : ApplyReq} {strat : StrategyMethods}

section
variable {k} {t : Site B} {row : InstanceRow B}

theorem row_rebuild (k : Codecs J B) (e : Rebuilding) (t : Site B) : ((rebuild k e).exec t).2.row = t.row := by
  rcases rebuild_cases k e t with ⟨_, _, _, _, _, _, _, ends⟩ | ⟨_, ends⟩
  · rw [ends]
  · rw [ends]

theorem row_addClient (k : Codecs J B) (e : Adding) (name : Text) (t : Site B) :
    ((addClient k e name).exec t).2.row = t.row := by
  rw [exec_addClient]
  cases addedClient k e name t with
  | none => rfl
  | some pair =>
    cases e.saveClient with
    | ok => exact row_rebuild k e.rebuild _
    | failed => rfl
    | lost => rfl

/-- After the save the row is not touched again. -/
theorem row_afterSave (k : Codecs J B) (e : Applying) (t : Site B) : ((afterSave k e).exec t).2.row = t.row := by
  have lists : Proc.Keeps (fun s : Site B => s.row = t.row) (listClients k e.list) :=
    .of_state fun s same => by rwa [exec_listClients]
  have adds : Proc.Keeps (fun s : Site B => s.row = t.row) (addClient k e.add "default".toList) :=
    .of_state fun s same => (row_addClient ..).trans same
  have rebuilds : Proc.Keeps (fun s : Site B => s.row = t.row) (rebuild k e.rebuild) :=
    .of_state fun s same => (row_rebuild ..).trans same
  exact (lists.bind fun clients => (Proc.Keeps.when adds).bind fun _ => rebuilds).state (fun _ _ same => same) rfl

theorem apply_cases (k : Codecs J B) (e : Applying) (strategyName : Text) (params : Params)
    (relays : Option (List RelaySpec)) (t : Site B) :
    ((appliedRow k e strategyName params relays t = none ∨ e.persist.saveInstance = .failed) ∧
      (apply k e strategyName params relays).exec t = (none, t)) ∨
    ∃ row, appliedRow k e strategyName params relays t = some row ∧ e.persist.saveInstance ≠ .failed ∧
      ((apply k e strategyName params relays).exec t).2.row = some row := by
  rw [exec_apply]
  cases appliedRow k e strategyName params relays t with
  | none => exact .inl ⟨.inl rfl, rfl⟩
  | some row =>
    cases e.persist.saveInstance with
    | ok => exact .inr ⟨row, rfl, nofun, row_afterSave k e _⟩
    | failed => exact .inl ⟨.inr rfl, rfl⟩
    | lost => exact .inr ⟨row, rfl, nofun, rfl⟩

variable {params : Params}

theorem appliedRow_eq {e : Applying} {strategyName : Text} {params' : Params}
    (known : get e.modules strategyName = some strat)
    (filled : finalParams e strat (current k e.read strategyName t) params = some params') :
    appliedRow k e strategyName params none t =
      sealedRow k e.persist strategyName params' ((current k e.read strategyName t).elim [] Instance.relays) := by
  unfold appliedRow
  simp only [known, Option.bind_eq_bind, Option.bind_some, filled]
  rfl

/-- A request without links saves nothing, or a row of what is stored and given. -/
theorem apiXrayApply_cases (env : ApiEnv) (omitted : req.relayLinks = none) :
    ((∀ strat params, ¬ Saves k env req t strat params) ∧ (apiXrayApply k env req).exec t = (none, t)) ∨
    ∃ strat params row, Saves k env req t strat params ∧
      sealedRow k env.apply.persist req.strategy params
        ((current k env.apply.read req.strategy t).elim [] Instance.relays) = some row ∧
      ((apiXrayApply k env req).exec t).2.row = some row := by
  unfold apiXrayApply
  rw [Proc.exec_guard_bind, omitted]
  cases provider : env.provider with
  | false =>
    refine .inl ⟨fun _ _ saves => ?_, rfl⟩
    rw [saves.provider] at provider
    cases provider
  | true =>
    rw [if_pos rfl, Proc.exec_lift_bind]
    cases api : get env.modules req.strategy with
    | none =>
      refine .inl ⟨fun _ _ saves => ?_, rfl⟩
      obtain ⟨_, found, _⟩ := saves.filled
      rw [api] at found
      cases found
    | some asked =>
      change (_ ∧ (apply k env.apply req.strategy (requestParams asked.params req.params) none).exec t = _) ∨
        ∃ strat params row, _ ∧ _ ∧
          ((apply k env.apply req.strategy (requestParams asked.params req.params) none).exec t).2.row = _
      rcases apply_cases k env.apply req.strategy (requestParams asked.params req.params) none t with
        ⟨stops, ends⟩ | ⟨row, made, saved, ends⟩
      · refine .inl ⟨fun strat params saves => ?_, ends⟩
        obtain ⟨asked', found, filled⟩ := saves.filled
        obtain rfl : asked = asked' := Option.some.inj (api.symm.trans found)
        rcases stops with none' | failed
        · have closed := saves.closed
          rw [← appliedRow_eq saves.known filled, none'] at closed
          cases closed
        · exact saves.saved failed
      · obtain ⟨strat, params, known, filled, closed⟩ := of_appliedRow k made
        refine .inr ⟨strat, params, row, ⟨provider, known, ⟨asked, api, filled⟩, ?_, saved⟩, closed, ends⟩
        exact Option.isSome_iff_exists.mpr ⟨row, closed⟩

theorem Saves.unique {env : ApiEnv} {strat' : StrategyMethods} {params' : Params} (first : Saves k env req t strat params)
    (second : Saves k env req t strat' params') : strat = strat' ∧ params = params' := by
  obtain rfl := Option.some.inj (first.known.symm.trans second.known)
  obtain ⟨api, found, filled⟩ := first.filled
  obtain ⟨api', found', filled'⟩ := second.filled
  obtain rfl := Option.some.inj (found.symm.trans found')
  exact ⟨rfl, Option.some.inj (filled.symm.trans filled')⟩

theorem of_sealedRow {e : Persisting} {strategy : Text} {relays : List RelaySpec}
    (made : sealedRow k e strategy params relays = some row) :
    (∃ q, paramsOf k row = some q ∧ ∀ key, q.get key [] = params.get key []) ∧
    chainOf k row = if relays = [] then some [] else decodeRelayChain k (k.writeChain relays) := by
  obtain ⟨n, _, made⟩ := Option.bind_eq_some_iff.mp made
  obtain ⟨encRelay, relay, made⟩ := Option.bind_eq_some_iff.mp made
  cases made
  obtain ⟨q, read, same⟩ := k.read_params params
  refine ⟨⟨q, ?_, fun key => by rw [Params.get, same key, Params.get]⟩, ?_⟩
  · rw [paramsOf, k.open_seal, Option.bind_some, read]
  · unfold sealedRelay at relay
    split at relay
    · cases relay
      rw [if_pos ‹_›]
      rfl
    · obtain ⟨m, _, rfl⟩ := Option.map_eq_some_iff.mp relay
      rw [if_neg ‹_›, chainOf]
      dsimp only
      rw [k.open_seal, Option.bind_some]

/-- A chain that was read is saved as it was. -/
theorem decodeRelayChain_again {chain : List RelaySpec} (read : chainOf k row = some chain) (nonempty : chain ≠ []) :
    decodeRelayChain k (k.writeChain chain) = some chain := by
  have again : k.readChain (k.writeChain chain) = some chain := by
    unfold chainOf at read
    split at read
    · cases read
      exact absurd rfl nonempty
    · obtain ⟨raw, _, decoded⟩ := Option.bind_eq_some_iff.mp read
      unfold decodeRelayChain at decoded
      split at decoded
      · rename_i whole
        cases decoded
        exact k.read_chain raw chain whole
      · obtain ⟨hop, single, same⟩ := Option.map_eq_some_iff.mp decoded
        split at same
        · exact absurd same.symm nonempty
        · subst same
          exact k.read_single raw hop single
  rw [decodeRelayChain, again]

theorem of_decode {inst : Instance} (read : decode k row = some inst) :
    inst.strategy = row.strategy ∧ paramsOf k row = some inst.params ∧ chainOf k row = some inst.relays := by
  obtain ⟨p, params, read⟩ := Option.bind_eq_some_iff.mp read
  obtain ⟨c, chain, read⟩ := Option.bind_eq_some_iff.mp read
  cases read
  exact ⟨rfl, params, chain⟩

variable {r : Reading}

theorem current_of_readable (here : t.row = some row) (readable : Readable k r row) :
    ∃ inst, decode k row = some inst ∧ current k r row.strategy t = some inst := by
  obtain ⟨works, decodes⟩ := readable
  obtain ⟨inst, read⟩ := Option.isSome_iff_exists.mp decodes
  refine ⟨inst, read, ?_⟩
  rw [current, instanceOf, here, Option.bind_some, if_pos works, read]
  exact Option.filter_eq_some_iff.mpr ⟨rfl, decide_eq_true (of_decode read).1⟩

theorem current_of_unreadable (here : t.row = some row) (unreadable : ¬ Readable k r row) (name : Text) :
    current k r name t = none := by
  have none : instanceOf k r t = none := by
    rw [instanceOf, here, Option.bind_some]
    by_cases works : r.works row = true
    · rw [if_pos works]
      exact Option.not_isSome_iff_eq_none.mp fun decodes => unreadable ⟨works, decodes⟩
    · rw [if_neg works]
  rw [current, none]
  rfl

theorem keeps_chain_iff {row' : InstanceRow B} {e : Persisting} (here : t.row = some row)
    (made : sealedRow k e row.strategy params ((current k r row.strategy t).elim [] Instance.relays) = some row') :
    (∃ chain, chainOf k row = some chain ∧ chainOf k row' = some chain) ↔
      (¬ Readable k r row → chainOf k row = some []) := by
  have after := (of_sealedRow made).2
  by_cases readable : Readable k r row
  · obtain ⟨inst, read, cur⟩ := current_of_readable here readable
    obtain ⟨_, _, chain⟩ := of_decode read
    refine iff_of_true ⟨inst.relays, chain, ?_⟩ fun no => absurd readable no
    rw [cur, Option.elim_some] at after
    rw [after]
    split
    · rename_i direct
      rw [direct]
    · exact decodeRelayChain_again chain ‹_›
  · rw [current_of_unreadable here readable] at after
    rw [after, forall_prop_of_true readable]
    exact ⟨fun ⟨chain, before, same⟩ => before.trans same.symm, fun before => ⟨[], before, rfl⟩⟩

end

theorem get_setField (p : Params) (name key : String) (value : Text) :
    Params.get (setField p name value) key [] = if key = name then value else p.get key [] := by
  unfold Params.get
  by_cases same : key = name
  · rw [if_pos same, same, lookup_setField]
    by_cases empty : value = []
    · simp [empty]
    · simp [empty]
  · rw [if_neg same, lookup_setField_of_ne same]

variable {key : String}

theorem get_foldl_carry {cur : Params} (keys : List String) {p : Params}
    (own : p.get key [] = [] ∨ p.get key [] = cur.get key []) (secret : key ∈ keys ∨ p.get key [] = cur.get key []) :
    (keys.foldl (fun (p : Params) key =>
      if cur.get key [] ≠ [] ∧ p.get key [] = [] then setField p key (cur.get key []) else p) p).get key [] =
      cur.get key [] := by
  induction keys generalizing p with
  | nil => exact secret.resolve_left nofun
  | cons first keys ih =>
    rw [List.foldl_cons]
    split
    · by_cases same : key = first
      · have value : Params.get (setField p first (cur.get first [])) key [] = cur.get key [] := by
          rw [get_setField, if_pos same, same]
        exact ih (.inr value) (.inr value)
      · have value : Params.get (setField p first (cur.get first [])) key [] = p.get key [] := by
          rw [get_setField, if_neg same]
        rw [← value] at own secret
        exact ih own (secret.imp_left fun member => (List.mem_cons.mp member).resolve_left same)
    · rename_i kept
      refine ih own ?_
      rcases secret with member | value
      · rcases List.mem_cons.mp member with rfl | later
        · refine .inr (own.elim (fun absent => ?_) id)
          by_contra differ
          exact kept ⟨fun none => differ (absent.trans none.symm), absent⟩
        · exact .inl later
      · exact .inr value

/-- A secret that is not given is the stored one. -/
theorem get_carrySecrets {specs : List SecretSpec} {cur params : Params} (secret : key ∈ secretParamKeys specs)
    (absent : params.get key [] = []) : (carrySecrets specs cur params).get key [] = cur.get key [] :=
  get_foldl_carry _ (.inl absent) (.inl secret)

theorem ensureInstanceCrypto_of_complete {generate : SecretSpec → Option (Text × Text)} {specs : List SecretSpec}
    {p : Params} (complete : ∀ s ∈ specs, p.get s.key [] ≠ []) : ensureInstanceCrypto generate specs p = some p := by
  induction specs with
  | nil => rfl
  | cons s specs ih =>
    rw [List.forall_mem_cons] at complete
    rw [ensureInstanceCrypto, if_pos complete.1, ih complete.2]

/-- Where all secrets are stored and none is given, none is drawn. -/
theorem finalParams_of_complete (e : Applying) {inst : Instance} {params : Params}
    (absent : ∀ key ∈ secretParamKeys strat.instanceSecrets, params.get key [] = [])
    (full : ∀ spec ∈ strat.instanceSecrets, inst.params.get spec.key [] ≠ []) :
    finalParams e strat (some inst) params = some (carrySecrets strat.instanceSecrets inst.params params) := by
  refine ensureInstanceCrypto_of_complete fun spec listed => ?_
  have secret : spec.key ∈ secretParamKeys strat.instanceSecrets :=
    List.mem_flatMap.mpr ⟨spec, listed, List.mem_cons_self ..⟩
  rw [Option.elim_some, get_carrySecrets secret (absent spec.key secret)]
  exact full spec listed

theorem get_requestParams {specs : List ParamSpec} {given : Params} (other : key ∉ specs.map (·.key)) :
    (requestParams specs given).get key [] = [] := by
  have fold : ∀ p : Params, p.get key [] = [] → (specs.foldl (fun (p : Params) s =>
      if given.get s.key [] ≠ [] then setField p s.key (given.get s.key []) else p) p).get key [] = [] := by
    induction specs with
    | nil => exact fun _ absent => absent
    | cons s specs ih =>
      rw [List.map_cons, List.mem_cons, not_or] at other
      intro p absent
      rw [List.foldl_cons]
      refine ih other.2 _ ?_
      split
      · rw [get_setField, if_neg other.1, absent]
      · exact absent
  exact fold [] rfl

theorem Builtin.secret_not_param (s : Builtin) :
    ∀ key ∈ secretParamKeys s.instanceSecrets, key ∉ s.params.map (·.key) := by
  cases s <;> decide

theorem preserves_iff (env : ApiEnv) {t : Site B} {row : InstanceRow B} (here : t.row = some row)
    (named : req.strategy = row.strategy) (omitted : req.relayLinks = none) :
    Preserves k env req row t ↔ ReapplySafe k env req row t := by
  rcases apiXrayApply_cases (k := k) (t := t) env omitted with ⟨stops, ends⟩ | ⟨strat, params, row', saves, made, ends⟩
  · refine iff_of_true (.inl ?_) fun strat params saves => absurd saves (stops strat params)
    rw [ends]
    exact ⟨rfl, here⟩
  · obtain ⟨⟨q, read, same⟩, after⟩ := of_sealedRow made
    rw [named] at made after
    have chain := keeps_chain_iff here made
    constructor
    · rintro (⟨_, row''⟩ | ⟨row'', links, row'', before, kept, secrets⟩) strat' params' saves'
      · obtain ⟨rfl, rfl⟩ := saves'.unique saves
        obtain rfl : row' = row := Option.some.inj (ends.symm.trans row'')
        refine ⟨fun unreadable => ?_, fun key _ p params => ?_⟩
        · rw [current_of_unreadable here unreadable] at after
          exact after
        · obtain rfl := Option.some.inj (read.symm.trans params)
          exact fun _ => (same key).symm
      · obtain ⟨rfl, rfl⟩ := saves'.unique saves
        obtain rfl : row' = _ := Option.some.inj (ends.symm.trans row'')
        refine ⟨chain.mp ⟨links, before, kept⟩, fun key secret p params stored => ?_⟩
        obtain ⟨q', read', same'⟩ := secrets _ saves.known key secret p params stored
        obtain rfl := Option.some.inj (read.symm.trans read')
        exact (same key).symm.trans same'
    · intro safe
      obtain ⟨readable, secrets⟩ := safe strat params saves
      obtain ⟨links, before, kept⟩ := chain.mpr readable
      refine .inr ⟨row', links, ends, before, kept, fun strat' known key secret p params' stored => ?_⟩
      obtain rfl := Option.some.inj (saves.known.symm.trans known)
      exact ⟨q, read, (same key).trans (secrets key secret p params' stored)⟩

/-- A strategy of the panel takes its secrets over from an instance that can be read. -/
theorem reapplySafe_of_readable (env : ApiEnv) {t : Site B} {row : InstanceRow B} {s : Builtin} (here : t.row = some row)
    (named : req.strategy = row.strategy) (builtin : row.strategy = s.name) (readable : Readable k env.apply.read row)
    (complete : ∀ spec ∈ s.instanceSecrets, ∀ p, paramsOf k row = some p → p.get spec.key [] ≠ []) :
    ReapplySafe k env req row t := by
  intro strat params saves
  refine ⟨fun no => absurd readable no, fun key secret p read stored => ?_⟩
  obtain ⟨inst, decoded, cur⟩ := current_of_readable here readable
  obtain ⟨_, params', _⟩ := of_decode decoded
  obtain rfl : inst.params = p := Option.some.inj (params'.symm.trans read)
  obtain ⟨api, asked, filled⟩ := saves.filled
  have known := saves.known
  rw [named, builtin, get_name] at asked known
  cases asked
  cases known
  have absent : ∀ key ∈ secretParamKeys s.instanceSecrets,
      (requestParams s.strategy.params req.params).get key [] = [] :=
    fun key secret => get_requestParams (s.secret_not_param key secret)
  have full : ∀ spec ∈ s.instanceSecrets, inst.params.get spec.key [] ≠ [] :=
    fun spec listed => complete spec listed inst.params params'
  rw [named, cur, finalParams_of_complete env.apply absent full] at filled
  cases filled
  exact get_carrySecrets secret (absent key secret)

/-- A request without relay links for the stored strategy leaves the relay chain and the secrets,
or fails and leaves the row, exactly if what it saves has the stored secrets and it could read
the chain, or there was none. For a strategy of the panel it is enough that it could read it. -/
theorem reapply_iff (env : ApiEnv) {req : ApplyReq} {t : Site B} {row : InstanceRow B} (here : t.row = some row)
    (named : req.strategy = row.strategy) (omitted : req.relayLinks = none) :
    (Preserves k env req row t ↔ ReapplySafe k env req row t) ∧
    ∀ s : Builtin, row.strategy = s.name → Readable k env.apply.read row →
      (∀ spec ∈ s.instanceSecrets, ∀ p, paramsOf k row = some p → p.get spec.key [] ≠ []) →
      ReapplySafe k env req row t :=
  ⟨preserves_iff k env here named omitted, fun _ builtin => reapplySafe_of_readable k env here named builtin⟩

def realityParams : Params := [("sni", "www.example.com".toList), ("dest", "www.example.com:443".toList)]

def hop : RelaySpec := ⟨Builtin.trojanTCPTLS.name, "relay.example.com".toList, [("password", "secret".toList)]⟩

def drawn (c : Char) (s : SecretSpec) : Option (Text × Text) := some (c :: s.key.toList, c :: s.pairKey.toList)

/-- An instance with secrets and a relay. -/
def relayed : Site (Nat × Plain) :=
  Op.step plain (Site.fresh _) (.apply { generate := drawn 'a' } .realityVlessTCP realityParams (some [hop]))

def relayedRow : InstanceRow (Nat × Plain) := relayed.row.getD ⟨[], (0, .params []), none⟩

/-- Another port. -/
def editPort : ApplyReq := ⟨Builtin.realityVlessTCP.name, ("port", "8443".toList) :: realityParams, none⟩

theorem reapply_sample : relayed.row = some relayedRow ∧ Preserves plain {} editPort relayedRow relayed := by
  have here : relayed.row = some relayedRow := by decide +kernel
  have named : editPort.strategy = relayedRow.strategy := by decide +kernel
  have readable : Readable plain {} relayedRow := by
    unfold Readable
    decide +kernel
  have complete : ∀ spec ∈ Builtin.realityVlessTCP.instanceSecrets,
      (((paramsOf plain relayedRow).getD []).get spec.key []) ≠ [] := by decide +kernel
  obtain ⟨exact, enough⟩ := reapply_iff plain {} here named rfl
  refine ⟨here, exact.mpr (enough .realityVlessTCP named.symm readable fun spec listed p read => ?_)⟩
  have stored := complete spec listed
  rwa [read] at stored

def unread : ApiEnv := { apply := { read := { getInstance := false }, generate := drawn 'b' } }

/-- A read that fails is taken for no instance: the relay is gone and the secrets are new. -/
theorem reapply_drops_relay :
    relayed.row = some relayedRow ∧ ((apiXrayApply plain unread editPort).exec relayed).1 = some () ∧
    ¬ Preserves plain unread editPort relayedRow relayed := by
  have here : relayed.row = some relayedRow := by decide +kernel
  have before : chainOf plain relayedRow = some [hop] := by decide +kernel
  have done : ((apiXrayApply plain unread editPort).exec relayed).1 = some () := by decide +kernel
  have after : ((apiXrayApply plain unread editPort).exec relayed).2.row.bind (chainOf plain) = some [] := by
    decide +kernel
  refine ⟨here, done, ?_⟩
  rintro (⟨failed, _⟩ | ⟨row', chain, stored, same, kept, _⟩)
  · rw [done] at failed
    cases failed
  · rw [stored, Option.bind_some, kept, ← same, before] at after
    cases after

end Protean.Xray
