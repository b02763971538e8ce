import Protean.WgFamily.Host
import Protean.WgFamily.Lines

namespace Protean.WgFamily

def obfuscationKeys : List Text :=
  ["Jc".toList, "Jmin".toList, "Jmax".toList, "S1".toList, "S2".toList, "H1".toList, "H2".toList, "H3".toList,
    "H4".toList]

structure ServerConfig where
  listenPort : Int
  address : Text
  dns : Text
  mtu : Int
  extra : List KV

/-- The body of the request. A field that is missing in `extra` is empty. -/
structure ServerConfigReq where
  listenPort : Int
  address : Text
  dns : Text
  mtu : Int
  extra : Text → Text

/-- The order in which a map of the obfuscation options is gone through. -/
structure MapOrder where
  keys : List Text
  perm : keys.Perm obfuscationKeys

def ConfFile.withServerConfig (cfg : ServerConfig) (conf : ConfFile) : ConfFile :=
  let conf := if 0 < cfg.listenPort then conf.interfaceSet "ListenPort".toList (Text.itoa cfg.listenPort) else conf
  let conf := if cfg.address ≠ [] then conf.interfaceSet "Address".toList cfg.address else conf
  let conf := if cfg.dns ≠ [] then conf.interfaceSet "DNS".toList cfg.dns else conf
  let conf := if 0 < cfg.mtu then conf.interfaceSet "MTU".toList (Text.itoa cfg.mtu) else conf.interfaceUnset "MTU".toList
  cfg.extra.foldl (fun conf kv => conf.interfaceSet kv.key kv.value) conf

section
variable (env : Env)

def updateServerConfig (cfg : ServerConfig) : Proc Host Unit := do
  let conf ← readConf env
  let _ ← writeConf env (conf.withServerConfig cfg)
  Proc.guard env.restart

variable (kind : Kind) (order : MapOrder)

def ServerConfigReq.extras (req : ServerConfigReq) : List KV :=
  match kind with
  | .wireguard => []
  | .amneziawg => (order.keys.map fun k => (⟨k, Text.trimSpace (req.extra k)⟩ : KV)).filter fun kv => kv.value ≠ []

def ServerConfigReq.config (req : ServerConfigReq) : ServerConfig where
  listenPort := req.listenPort
  address := Text.trimSpace req.address
  dns := Text.trimSpace req.dns
  mtu := req.mtu
  extra := req.extras kind order

/-- The address may be repeated, not changed; when the status cannot be read it
is not compared. -/
def apiServerConfigUpdate (publicHost : Text) (req : ServerConfigReq) : Proc Host Unit := do
  match ← Proc.attempt (status env publicHost) with
  | some current => Proc.guard (Text.trimSpace req.address = [] ∨ Text.trimSpace req.address = current.address)
  | none => pure ()
  updateServerConfig env (req.config kind order)

end

/-- The options that server settings are for. -/
def settableKeys (kind : Kind) : List Text :=
  ["ListenPort".toList, "Address".toList, "DNS".toList, "MTU".toList] ++
    match kind with
    | .wireguard => []
    | .amneziawg => obfuscationKeys

def KV.settable (kind : Kind) (kv : KV) : Bool := (settableKeys kind).any (equalFold kv.key)

/-- What server settings may do to a file. -/
structure OnlySettings (kind : Kind) (before after : ConfFile) : Prop where
  options : after.interfaceOpts.filter (!·.settable kind) = before.interfaceOpts.filter (!·.settable kind)
  peers : after.peers = before.peers

def ServerConfig.settings (cfg : ServerConfig) : List KV :=
  (if 0 < cfg.listenPort then [⟨"ListenPort".toList, Text.itoa cfg.listenPort⟩] else []) ++
    (if cfg.address ≠ [] then [⟨"Address".toList, cfg.address⟩] else []) ++
    (if cfg.dns ≠ [] then [⟨"DNS".toList, cfg.dns⟩] else []) ++
    (if 0 < cfg.mtu then [⟨"MTU".toList, Text.itoa cfg.mtu⟩] else []) ++ cfg.extra

/-- The lines that the values of a request bring into a file after their own,
in the order in which they come to stand there. -/
def broughtLines (conf : ConfFile) (settings : List KV) : List Text :=
  (standing conf.interfaceOpts settings).flatMap addedLines

/-- The lines that come with the settings begin no peer, hold no option but
those that may be set, and leave no name for a first peer without one. Nothing
but a carriage return in a name is lost by writing the file. -/
structure Harmless (kind : Kind) (conf : ConfFile) (settings : List KV) : Prop where
  sections : ∀ l ∈ broughtLines conf settings, Line.read l ≠ .peer
  options : ∀ l ∈ broughtLines conf settings, ∀ kv, Line.read l = .option kv → kv.settable kind = true
  names : ∀ p ∈ conf.peers.head?, p.name = [] → pendingName [] (broughtLines conf settings) = []
  breaks : ∀ p ∈ conf.peers, '\r' ∉ p.name

section
variable {kind : Kind} {order : MapOrder} {req : ServerConfigReq} {conf : ConfFile}

theorem settableKeys_distinct : (settableKeys .amneziawg).Pairwise fun a b => equalFold a b = false := by
  decide +kernel

theorem settableKeys_valid {k : Text} (member : k ∈ settableKeys .amneziawg) (value : Text) : KV.KeyValid ⟨k, value⟩ :=
  KV.keyValid_of_mem (by decide +kernel) member value

/-- The keys of a request's settings, in their order. -/
theorem settings_keys (kind : Kind) (order : MapOrder) (req : ServerConfigReq) :
    ((req.config kind order).settings.map KV.key).Sublist
      (["ListenPort".toList, "Address".toList, "DNS".toList, "MTU".toList] ++ order.keys) := by
  have extras : ((req.extras kind order).map KV.key).Sublist order.keys := by
    unfold ServerConfigReq.extras
    split
    · exact List.nil_sublist _
    · have all : (order.keys.map fun k => (⟨k, Text.trimSpace (req.extra k)⟩ : KV)).map KV.key = order.keys := by
        rw [List.map_map]
        exact List.map_id _
      have kept := (List.filter_sublist (p := fun kv : KV => kv.value ≠ []) (l := order.keys.map fun k =>
        (⟨k, Text.trimSpace (req.extra k)⟩ : KV))).map KV.key
      rwa [all] at kept
  unfold ServerConfig.settings
  simp only [List.map_append]
  exact ((((map_key_ite _ _).append (map_key_ite _ _)).append (map_key_ite _ _)).append (map_key_ite _ _)).append extras

theorem settings_distinct (kind : Kind) (order : MapOrder) (req : ServerConfigReq) :
    Distinct (req.config kind order).settings := by
  have perm : (["ListenPort".toList, "Address".toList, "DNS".toList, "MTU".toList] ++ order.keys).Perm
      (settableKeys .amneziawg) := order.perm.append_left _
  have symmetric : ∀ {a b : Text}, equalFold a b = false → equalFold b a = false := by
    intro a b apart
    exact Bool.eq_false_iff.mpr fun same => Bool.eq_false_iff.mp apart (equalFold_symm same)
  have keys := (perm.pairwise_iff symmetric).mpr settableKeys_distinct
  exact List.pairwise_map.mp (keys.sublist (settings_keys kind order req))

/-- Where a setting of a request comes from. -/
theorem mem_settings {s : KV} (member : s ∈ (req.config kind order).settings) :
    s.key ∈ ["ListenPort".toList, "Address".toList, "DNS".toList] ∨ 0 < req.mtu ∧ s.key = "MTU".toList ∨
      kind = .amneziawg ∧ s.key ∈ obfuscationKeys := by
  have single : ∀ {c : Prop} [Decidable c] {kv : KV}, s ∈ (if c then [kv] else []) → c ∧ s = kv := by
    intro c _ kv member
    split at member
    · exact ⟨‹c›, List.mem_singleton.mp member⟩
    · cases member
  unfold ServerConfig.settings at member
  simp only [List.mem_append] at member
  rcases member with (((port | address) | dns) | mtu) | extra
  · exact .inl (congrArg KV.key (single port).2 ▸ List.mem_cons_self)
  · exact .inl (congrArg KV.key (single address).2 ▸ List.mem_cons_of_mem _ List.mem_cons_self)
  · exact .inl (congrArg KV.key (single dns).2 ▸ List.mem_cons_of_mem _ (List.mem_cons_of_mem _ List.mem_cons_self))
  · exact .inr (.inl ⟨(single mtu).1, congrArg KV.key (single mtu).2⟩)
  · unfold ServerConfigReq.config ServerConfigReq.extras at extra
    cases kind with
    | wireguard => cases extra
    | amneziawg =>
      obtain ⟨k, listed, rfl⟩ := List.mem_map.mp (List.mem_of_mem_filter extra)
      exact .inr (.inr ⟨rfl, order.perm.subset listed⟩)

theorem mtu_mem_settableKeys (kind : Kind) : "MTU".toList ∈ settableKeys kind := by
  cases kind <;> decide +kernel

theorem settings_settable {s : KV} (member : s ∈ (req.config kind order).settings) : s.key ∈ settableKeys kind := by
  rcases mem_settings member with fixed | ⟨_, mtu⟩ | ⟨rfl, extra⟩
  · exact List.mem_append_left _ ((List.sublist_append_left _ ["MTU".toList]).subset fixed)
  · rw [mtu]
    exact mtu_mem_settableKeys kind
  · exact List.mem_append_right _ extra

theorem settableKeys_subset (kind : Kind) : settableKeys kind ⊆ settableKeys .amneziawg := by
  cases kind with
  | wireguard => exact List.subset_append_left _ _
  | amneziawg => exact fun k member => member

theorem interfaceSet_foldl (conf : ConfFile) (settings : List KV) :
    settings.foldl (fun conf kv => conf.interfaceSet kv.key kv.value) conf =
      { conf with interfaceOpts := setAll conf.interfaceOpts settings } := by
  induction settings generalizing conf with
  | nil => rfl
  | cons s settings ih =>
    rw [List.foldl_cons, ih]
    rfl

theorem unsetOpt_setAll {opts settings : List KV} {other : Text}
    (different : ∀ s ∈ settings, equalFold s.key other = false) :
    setAll (unsetOpt opts other) settings = unsetOpt (setAll opts settings) other := by
  induction settings generalizing opts with
  | nil => rfl
  | cons s settings ih =>
    rw [List.forall_mem_cons] at different
    have first : unsetOpt (setOpt opts s.key s.value) other = setOpt (unsetOpt opts other) s.key s.value :=
      unsetOpt_setOpt different.1
    have start : setAll (unsetOpt opts other) (s :: settings) =
        setAll (setOpt (unsetOpt opts other) s.key s.value) settings := rfl
    rw [start, ← first, ih different.2]
    rfl

/-- The options that the settings are made in. -/
def settingsBase (mtu : Int) (opts : List KV) : List KV := if 0 < mtu then opts else unsetOpt opts "MTU".toList

theorem withServerConfig_eq (conf : ConfFile) (cfg : ServerConfig) :
    conf.withServerConfig cfg =
      { conf with interfaceOpts := setAll (settingsBase cfg.mtu conf.interfaceOpts) cfg.settings } := by
  have one : ∀ (c : Prop) [Decidable c] (conf : ConfFile) (s : KV),
      (if c then conf.interfaceSet s.key s.value else conf) =
        { conf with interfaceOpts := setAll conf.interfaceOpts (if c then [s] else []) } := by
    intro c _ conf s
    split <;> rfl
  have apart : ∀ (c : Prop) [Decidable c] {key value : Text}, equalFold key "MTU".toList = false →
      ∀ t ∈ (if c then [(⟨key, value⟩ : KV)] else []), equalFold t.key "MTU".toList = false := by
    intro c _ key value different t member
    split at member
    · rwa [List.mem_singleton.mp member]
    · cases member
  unfold ConfFile.withServerConfig ServerConfig.settings settingsBase
  dsimp only
  rw [one (0 < cfg.listenPort) conf ⟨_, _⟩, one (cfg.address ≠ []) _ ⟨_, _⟩, one (cfg.dns ≠ []) _ ⟨_, _⟩,
    interfaceSet_foldl]
  simp only [setAll_append]
  by_cases mtu : 0 < cfg.mtu
  · simp only [if_pos mtu]
    rfl
  · simp only [if_neg mtu]
    rw [ConfFile.interfaceUnset, unsetOpt_setAll (apart _ (by decide +kernel)),
      unsetOpt_setAll (apart _ (by decide +kernel)), unsetOpt_setAll (apart _ (by decide +kernel))]
    rfl

theorem standing_unsetOpt {opts settings : List KV} {other : Text}
    (different : ∀ s ∈ settings, equalFold other s.key = false) :
    standing (unsetOpt opts other) settings = standing opts settings := by
  induction opts generalizing settings with
  | nil => rfl
  | cons kv opts ih =>
    unfold unsetOpt at ih ⊢
    by_cases gone : equalFold kv.key other = true
    · have none : ∀ s ∈ settings, ¬ kv.sameKey s = true := by
        intro s member same
        exact Bool.eq_false_iff.mp (different s member) (equalFold_trans (equalFold_symm gone) same)
      rw [List.filter_cons_of_neg (by simp [gone]), ih different, standing, List.find?_eq_none.mpr none,
        List.eraseP_of_forall_not none]
      rfl
    · rw [List.filter_cons_of_pos (by simp [gone]), standing, standing,
        ih fun s member => different s (List.eraseP_subset member)]

theorem standing_settingsBase (opts : List KV) (kind : Kind) (order : MapOrder) (req : ServerConfigReq) :
    standing (settingsBase req.mtu opts) (req.config kind order).settings =
      standing opts (req.config kind order).settings := by
  unfold settingsBase
  split
  · rfl
  · rename_i unset
    refine standing_unsetOpt fun s member => ?_
    have others : ∀ k ∈ ["ListenPort".toList, "Address".toList, "DNS".toList] ++ obfuscationKeys,
        equalFold "MTU".toList k = false := by decide +kernel
    rcases mem_settings member with fixed | ⟨mtu, _⟩ | ⟨_, extra⟩
    · exact others _ (List.mem_append_left _ fixed)
    · exact absurd mtu unset
    · exact others _ (List.mem_append_right _ extra)

theorem settingsBase_subset (mtu : Int) (opts : List KV) : settingsBase mtu opts ⊆ opts := by
  unfold settingsBase
  split
  · exact fun kv member => member
  · exact List.filter_sublist.subset

/-- The options in the file after a request. -/
def optionsAfter (kind : Kind) (order : MapOrder) (req : ServerConfigReq) (opts : List KV) : List KV :=
  setAll (settingsBase req.mtu opts) (req.config kind order).settings

section
variable {opts : List KV}

theorem setAll_keyValid {settings : List KV} (before : ∀ kv ∈ opts, kv.KeyValid)
    (set : ∀ s ∈ settings, s.KeyValid) : ∀ kv ∈ setAll opts settings, kv.KeyValid := by
  induction settings generalizing opts with
  | nil => exact before
  | cons s settings ih =>
    rw [List.forall_mem_cons] at set
    refine ih (fun kv member => ?_) set.2
    rcases mem_setOpt member with old | ⟨_, new | ⟨old, listed, same⟩⟩
    · exact before kv old
    · exact set.1.of_key new
    · exact (before old listed).of_key same

theorem optionsAfter_keyValid (valid : ∀ kv ∈ opts, kv.Valid) (kind : Kind) (order : MapOrder)
    (req : ServerConfigReq) : ∀ kv ∈ optionsAfter kind order req opts, kv.KeyValid :=
  setAll_keyValid (fun kv member => (valid kv (settingsBase_subset _ _ member)).keyValid) fun s member =>
    settableKeys_valid (settableKeys_subset kind (settings_settable member)) s.value

/-- The lines after the first of any value in the file are those of the request. -/
theorem addedLines_optionsAfter (valid : ∀ kv ∈ opts, kv.Valid) (kind : Kind) (order : MapOrder)
    (req : ServerConfigReq) :
    (optionsAfter kind order req opts).flatMap addedLines =
      (standing opts (req.config kind order).settings).flatMap addedLines := by
  have byValue : ∀ kv kv' : KV, kv.value = kv'.value → addedLines kv = addedLines kv' := by
    intro kv kv' same
    rw [addedLines, addedLines, same]
  rw [optionsAfter, flatMap_setAll byValue (fun kv member =>
    addedLines_of_single (valid kv (settingsBase_subset _ _ member)).value_plain) (settings_distinct kind order req),
    standing_settingsBase]

theorem settable_of_equalFold {kv : KV} {k : Text} (listed : k ∈ settableKeys kind)
    (same : equalFold kv.key k = true) : kv.settable kind = true := List.any_eq_true.mpr ⟨k, listed, same⟩

/-- No other option is changed. -/
theorem filter_optionsAfter (kind : Kind) (order : MapOrder) (req : ServerConfigReq) (opts : List KV) :
    (optionsAfter kind order req opts).filter (!·.settable kind) = opts.filter (!·.settable kind) := by
  have all : ∀ {settings opts : List KV}, (∀ s ∈ settings, s.key ∈ settableKeys kind) →
      (setAll opts settings).filter (!·.settable kind) = opts.filter (!·.settable kind) := by
    intro settings
    induction settings with
    | nil => exact fun _ => rfl
    | cons s settings ih =>
      intro opts listed
      rw [List.forall_mem_cons] at listed
      refine (ih listed.2).trans (filter_setOpt fun kv same => ?_)
      simp [settable_of_equalFold listed.1 same]
  have base : (settingsBase req.mtu opts).filter (!·.settable kind) = opts.filter (!·.settable kind) := by
    unfold settingsBase
    split
    · rfl
    · rw [unsetOpt, List.filter_filter]
      refine List.filter_congr fun kv _ => ?_
      cases mtu : equalFold kv.key "MTU".toList with
      | false => simp
      | true =>
        simp [settable_of_equalFold (mtu_mem_settableKeys kind) mtu]
  exact (all fun s member => settings_settable member).trans base

end

/-- Counting what is read back: nothing is lost of the options that were there. -/
theorem countP_readOpts (p : KV → Bool) (byKey : ∀ kv kv' : KV, kv.key = kv'.key → p kv = p kv') (opts : List KV) :
    (opts.flatMap KV.readOpts).countP p =
      opts.countP p + ((opts.flatMap addedLines).filterMap fun l => (Line.read l).option?).countP p := by
  induction opts with
  | nil => rfl
  | cons kv opts ih =>
    have own : p ⟨kv.key, Text.trimSpace kv.firstLine.value⟩ = p kv := byKey _ _ rfl
    rw [List.flatMap_cons, List.flatMap_cons, List.countP_append, ih, List.filterMap_append, List.countP_append,
      KV.readOpts, List.countP_cons, List.countP_cons, own]
    omega

theorem filter_readOpts {p : KV → Bool} {opts : List KV} (plain : ∀ kv ∈ opts, p kv = true → kv.Valid)
    (byKey : ∀ kv kv' : KV, kv.key = kv'.key → p kv = p kv')
    (none : ∀ l ∈ opts.flatMap addedLines, ∀ kv, Line.read l = .option kv → p kv = false) :
    (opts.flatMap KV.readOpts).filter p = opts.filter p := by
  induction opts with
  | nil => rfl
  | cons kv opts ih =>
    rw [List.forall_mem_cons] at plain
    rw [List.flatMap_cons, List.forall_mem_append] at none
    have added : ((addedLines kv).filterMap fun l => (Line.read l).option?).filter p = [] := by
      refine List.filter_eq_nil_iff.mpr fun new member => ?_
      obtain ⟨l, listed, found⟩ := List.mem_filterMap.mp member
      simp [none.1 l listed new (Line.option?_eq_some.mp found)]
    rw [List.flatMap_cons, List.filter_append, ih plain.2 none.2]
    cases own : p kv with
    | true =>
      rw [(plain.1 own).readOpts, List.filter_cons_of_pos own, List.filter_cons_of_pos own]
      rfl
    | false =>
      have first : p ⟨kv.key, Text.trimSpace kv.firstLine.value⟩ = false :=
        (byKey ⟨kv.key, Text.trimSpace kv.firstLine.value⟩ kv rfl).trans own
      rw [KV.readOpts, List.filter_cons_of_neg (by simp [first]), added, List.filter_cons_of_neg (by simp [own]),
        List.nil_append]

theorem settable_byKey (kind : Kind) (kv kv' : KV) (same : kv.key = kv'.key) :
    (!kv.settable kind) = !kv'.settable kind := by
  rw [KV.settable, KV.settable, same]

/-- The file that a request writes, read back. -/
theorem onlySettings_render_iff (kind : Kind) (order : MapOrder) (req : ServerConfigReq) (content : Text) :
    OnlySettings kind (parseConf content)
        (parseConf ((parseConf content).withServerConfig (req.config kind order)).render) ↔
      Harmless kind (parseConf content) (req.config kind order).settings := by
  have valid : (parseConf content).Valid := parseConf_valid content
  have names : ∀ p ∈ (parseConf content).peers, ReadName p.name := (parser_valid content).peerNames
  have keys := optionsAfter_keyValid valid.interfaceOpts kind order req
  have brought : (optionsAfter kind order req (parseConf content).interfaceOpts).flatMap addedLines =
      broughtLines (parseConf content) (req.config kind order).settings :=
    addedLines_optionsAfter valid.interfaceOpts kind order req
  have kept := filter_optionsAfter kind order req (parseConf content).interfaceOpts
  rw [show (parseConf content).withServerConfig (req.config kind order) =
    ⟨optionsAfter kind order req (parseConf content).interfaceOpts, (parseConf content).peers⟩ from
      withServerConfig_eq _ _]
  generalize optionsAfter kind order req (parseConf content).interfaceOpts = opts at keys brought kept ⊢
  constructor
  · intro only
    -- a line that begins a peer would make one peer more
    have length := @length_peers_parseConf_render ⟨opts, (parseConf content).peers⟩ keys valid.peers
    dsimp only at length
    rw [only.peers, brought] at length
    have noPeer : ∀ l ∈ broughtLines (parseConf content) (req.config kind order).settings, Line.read l ≠ .peer := by
      have zero := List.countP_eq_zero.mp (by omega :
        (broughtLines (parseConf content) (req.config kind order).settings).countP (fun l => Line.read l = .peer) = 0)
      exact fun l member => by simpa using zero l member
    have whole := @parseConf_render_inside ⟨opts, (parseConf content).peers⟩ keys valid.peers (brought ▸ noPeer)
    dsimp only at whole
    rw [whole, brought] at only
    obtain ⟨pending, breaks⟩ := (peersAfter_eq_self_iff names).mp only.peers
    refine ⟨noPeer, fun l member kv option => ?_, pending, breaks⟩
    -- an option that may not be set would make one more of them
    have count := countP_readOpts _ (settable_byKey kind) opts
    rw [List.countP_eq_length_filter, only.options, ← kept, ← List.countP_eq_length_filter, brought] at count
    have none := List.countP_eq_zero.mp (Nat.left_eq_add.mp count) kv
      (List.mem_filterMap.mpr ⟨l, member, by rw [option]; rfl⟩)
    simpa using none
  · intro harmless
    have whole := @parseConf_render_inside ⟨opts, (parseConf content).peers⟩ keys valid.peers
      (brought ▸ harmless.sections)
    rw [whole]
    dsimp only
    refine ⟨?_, ?_⟩
    · refine (filter_readOpts (fun kv member other => ?_) (settable_byKey kind) ?_).trans kept
      · have old : kv ∈ (parseConf content).interfaceOpts.filter (!·.settable kind) :=
          kept ▸ List.mem_filter.mpr ⟨member, other⟩
        exact valid.interfaceOpts kv (List.mem_of_mem_filter old)
      · rw [brought]
        intro l member kv option
        simp [harmless.options l member kv option]
    · rw [brought]
      exact (peersAfter_eq_self_iff names).mpr ⟨harmless.names, harmless.breaks⟩

/-- What a request that is accepted writes. -/
theorem apiServerConfigUpdate_file {env : Env} {publicHost : Text} {host host' : Host}
    (accepted : (apiServerConfigUpdate env kind order publicHost req).exec host = (some (), host')) :
    host'.file = ((parseConf host.file).withServerConfig (req.config kind order)).render := by
  have update : ∀ {host host' : Host}, (updateServerConfig env (req.config kind order)).exec host = (some (), host') →
      host'.file = ((parseConf host.file).withServerConfig (req.config kind order)).render := by
    intro host host' done
    rw [updateServerConfig, Proc.exec_bind, exec_readConf] at done
    cases read : env.readConf with
    | false => simp [read] at done
    | true =>
      rw [read, if_pos rfl] at done
      dsimp only at done
      rw [Proc.exec_bind, exec_writeConf] at done
      cases write : env.writeConf with
      | false => simp [write] at done
      | true =>
        rw [write, if_pos rfl] at done
        dsimp only at done
        rw [Proc.exec_guard] at done
        rw [← (Prod.mk.inj done).2]
  have unchanged : ∀ host, ((status env publicHost).exec host).2 = host := by
    intro host
    unfold status
    cases env.dump <;> rfl
  unfold apiServerConfigUpdate at accepted
  rw [Proc.exec_bind, Proc.exec_attempt, unchanged] at accepted
  dsimp only at accepted
  split at accepted
  · rename_i current _
    rw [Proc.exec_bind, Proc.exec_guard] at accepted
    split at accepted
    · rename_i same
      obtain ⟨_, rfl⟩ := Prod.mk.inj same
      exact update accepted
    · cases accepted
  · exact update accepted

/-- Settings stay settings, exactly if the lines that their values bring along
are harmless. -/
theorem server_settings_contained_iff {env : Env} {publicHost : Text} {host host' : Host}
    (accepted : (apiServerConfigUpdate env kind order publicHost req).exec host = (some (), host')) :
    OnlySettings kind (parseConf host.file) (parseConf host'.file) ↔
      Harmless kind (parseConf host.file) (req.config kind order).settings := by
  rw [apiServerConfigUpdate_file accepted]
  exact onlySettings_render_iff kind order req host.file

end

def sampleHost : Host where
  file := "[Interface]\nAddress = 10.0.0.1/8\n[Peer]\nPublicKey = a2V5\n".toList
  publicKey := "a2V5".toList
  listenPort := 51820
  live := KeyTable.empty

def sampleOrder : MapOrder := ⟨obfuscationKeys, .refl _⟩

def sampleReq (dns : Text) : ServerConfigReq := ⟨51821, "10.0.0.1/8".toList, dns, 0, fun _ => []⟩

/-- A comment in the value of the resolver is no setting. -/
theorem server_settings_contained_iff_sample :
    OnlySettings .wireguard (parseConf sampleHost.file) (parseConf ((apiServerConfigUpdate {} .wireguard sampleOrder []
      (sampleReq "1.1.1.1\n# resolver".toList)).exec sampleHost).2.file) := by
  refine (server_settings_contained_iff (Prod.ext (by decide +kernel) rfl)).mpr ?_
  have brought : broughtLines (parseConf sampleHost.file)
      ((sampleReq "1.1.1.1\n# resolver".toList).config .wireguard sampleOrder).settings = ["# resolver".toList] := by
    decide +kernel
  have ignored : Line.read "# resolver".toList = .ignored := by decide +kernel
  refine ⟨?_, ?_, ?_, by decide +kernel⟩
  · rw [brought, List.forall_mem_singleton, ignored]
    nofun
  · rw [brought, List.forall_mem_singleton, ignored]
    nofun
  · rw [brought]
    exact fun _ _ _ => by decide +kernel

/-- A resolver with a second line that is a hook. -/
theorem server_settings_inject_hook :
    ((apiServerConfigUpdate {} .wireguard sampleOrder []
        (sampleReq "1.1.1.1\nPostUp = id".toList)).exec sampleHost).1 = some () ∧
      ¬ OnlySettings .wireguard (parseConf sampleHost.file) (parseConf ((apiServerConfigUpdate {} .wireguard sampleOrder []
        (sampleReq "1.1.1.1\nPostUp = id".toList)).exec sampleHost).2.file) := by
  refine ⟨by decide +kernel, fun only => ?_⟩
  exact absurd only.options (by decide +kernel)

end Protean.WgFamily
