import Protean.Run
import Protean.WgFamily.Rotation

namespace Protean.WgFamily

structure DisableEnv where
  list : Env := {}
  saveDisabled : Bool := true
  remove : Env := {}
  deleteDisabled : Bool := true

structure EnableEnv where
  getDisabled : Bool := true
  add : Env := {}
  deleteDisabled : Bool := true

def deleteDisabledPeer (works : Bool) (pubkey : Text) : Proc Panel Unit :=
  onTables works fun t => { t with disabled := t.disabled.delete pubkey }

/-- The row is kept only if the peer could be removed. -/
def disablePeer (env : DisableEnv) (pubkey : Text) : Proc Panel Unit := do
  let target ← onHost (findListed env.list pubkey)
  onTables env.saveDisabled fun t => { t with
    disabled := t.disabled.upsert pubkey ⟨target.name, [','].intercalate target.allowedIPs, target.keepalive⟩ }
  match ← Proc.attempt (onHost (removePeer env.remove pubkey)) with
  | some _ => return
  | none =>
    let _ ← Proc.attempt (deleteDisabledPeer env.deleteDisabled pubkey)
    Proc.lift none

/-- The peer as its row describes it. -/
def disabledSpec (dp : Store.DisabledPeer) : PeerSpec :=
  ⟨dp.name, if dp.allowedIPs ≠ [] then dp.allowedIPs.splitOn ',' else [], dp.keepalive, []⟩

def apiEnablePeer (env : EnableEnv) (pubkey : Text) : Proc Panel Unit := do
  let dp ← Proc.read fun p => if env.getDisabled then p.tables.disabled.get pubkey else none
  onHost (addConfiguredPeer env.add pubkey (disabledSpec dp))
  let _ ← Proc.attempt (deleteDisabledPeer env.deleteDisabled pubkey)

inductive Request
  | disable (env : DisableEnv) (pubkey : Text)
  | enable (env : EnableEnv) (pubkey : Text)

def Request.handle : Request → Proc Panel Unit
  | .disable env pubkey => disablePeer env pubkey
  | .enable env pubkey => apiEnablePeer env pubkey

def handleRequest (p : Panel) (r : Request) : Panel := (r.handle.exec p).2

/-- How many blocks a file has for a key. -/
def blockCount (file key : Text) : Nat := (parseConf file).peers.countP (·.hasKey key)

/-- The file and the interface agree on whether there is the peer. -/
def Agree (id : Text) (h : Host) : Prop := 0 < blockCount h.file id ↔ (h.live.get id).isSome = true

/-- The peer is in the file or in the table, and not in both. -/
def OneHome (key : Text) (p : Panel) : Prop := 0 < blockCount p.host.file key ↔ p.tables.disabled.get key = none

instance (id : Text) (h : Host) : Decidable (Agree id h) :=
  inferInstanceAs (Decidable (0 < blockCount h.file id ↔ (h.live.get id).isSome = true))

instance (key : Text) (p : Panel) : Decidable (OneHome key p) :=
  inferInstanceAs (Decidable (0 < blockCount p.host.file key ↔ p.tables.disabled.get key = none))

section
variable {conf : ConfFile} {key other file : Text}

theorem isSome_findPeer_iff : (conf.findPeer key).isSome = true ↔ 0 < conf.peers.countP (·.hasKey key) := by
  rw [ConfFile.findPeer, List.find?_isSome, List.countP_pos_iff]

theorem hasKey_unique {p : ConfPeer} (own : p.hasKey key = true) (different : other ≠ key) : p.hasKey other = false := by
  refine decide_eq_false fun same => different ?_
  exact Option.some.inj (same.symm.trans (of_decide_eq_true own))

/-- Writing a file keeps the blocks of every key. -/
theorem blockCount_render (valid : conf.Valid) (key : Text) :
    blockCount conf.render key = conf.peers.countP (·.hasKey key) := by
  rw [blockCount, parseConf_render valid, ConfFile.mapNames, List.countP_map]
  rfl

theorem blockCount_removePeer_self (there : 0 < blockCount file key) :
    blockCount ((parseConf file).removePeer key).render key = blockCount file key - 1 := by
  obtain ⟨old, found⟩ := Option.isSome_iff_exists.mp (isSome_findPeer_iff.mpr there)
  obtain ⟨pre, post, peers, others, own⟩ := findPeer_split found
  have erased : (parseConf file).peers.eraseP (·.hasKey key) = pre ++ post := by
    rw [peers, List.eraseP_append_right _ (by simpa using others), List.eraseP_cons_of_pos own]
  rw [blockCount_render (removePeer_valid (parseConf_valid file) key), ConfFile.removePeer, erased, blockCount, peers,
    List.countP_append, List.countP_append, List.countP_cons_of_pos (p := fun x => ConfPeer.hasKey key x) own]
  omega

theorem blockCount_removePeer_of_ne (file : Text) (different : other ≠ key) :
    blockCount ((parseConf file).removePeer key).render other = blockCount file other := by
  rw [blockCount_render (removePeer_valid (parseConf_valid file) key), ConfFile.removePeer, blockCount]
  cases found : (parseConf file).findPeer key with
  | none => rw [List.eraseP_of_forall_not (List.find?_eq_none.mp found)]
  | some old =>
    obtain ⟨pre, post, peers, others, own⟩ := findPeer_split found
    rw [peers, List.eraseP_append_right _ (by simpa using others), List.eraseP_cons_of_pos own, List.countP_append,
      List.countP_append, List.countP_cons_of_neg (by simp [hasKey_unique own different])]

theorem blockCount_addPeer (file other : Text) {spec : PeerSpec} (plain : PlainValue key)
    (ips : validateAllowedIPs spec.allowedIPs = true)
    (extra : ∀ kv ∈ spec.extra, kv.Valid) (name : Text) :
    blockCount ((parseConf file).addPeer ⟨name, peerOpts key spec⟩).render other =
      blockCount file other + if other = key then 1 else 0 := by
  have valid : ((parseConf file).addPeer ⟨name, peerOpts key spec⟩).Valid := by
    refine ⟨(parseConf_valid file).interfaceOpts, fun p member => ?_⟩
    rcases List.mem_append.mp member with old | new
    · exact (parseConf_valid file).peers p old
    · rw [List.mem_singleton.mp new]
      exact peerOpts_valid plain ips extra
  have own : ConfPeer.hasKey key ⟨name, peerOpts key spec⟩ = true := decide_eq_true (getOpt_publicKey key spec)
  rw [blockCount_render valid, ConfFile.addPeer, List.countP_append, List.countP_singleton, blockCount]
  by_cases same : other = key
  · rw [same, if_pos own, if_pos rfl]
  · rw [if_neg (by simp [hasKey_unique own same]), if_neg same]

end

/-- What must go well for a removal. -/
def RemovalSafe (env : Env) (id : Text) (h : Host) : Prop :=
  env.readConf = true → 0 < blockCount h.file id → env.writeConf = true → (env.remove = true ↔ blockCount h.file id = 1)

section
variable {env : Env} {id other : Text} {h : Host}

theorem exec_removePeer_count :
    (removePeer env id).exec h =
      if env.readConf = true ∧ 0 < blockCount h.file id ∧ env.writeConf = true then
        let h' := { h with file := ((parseConf h.file).removePeer id).render }
        if env.remove then (some (), { h' with live := h'.live.delete id }) else (none, h')
      else (none, h) := by
  rw [exec_removePeer]
  simp only [isSome_findPeer_iff, blockCount]

/-- Removing a peer keeps the file and the interface in agreement, exactly if
the interface follows the file. -/
theorem agree_removePeer_iff (agree : Agree id h) : Agree id ((removePeer env id).exec h).2 ↔ RemovalSafe env id h := by
  rw [exec_removePeer_count]
  by_cases writes : env.readConf = true ∧ 0 < blockCount h.file id ∧ env.writeConf = true
  swap
  · rw [if_neg writes]
    exact iff_of_true agree fun read there write => absurd ⟨read, there, write⟩ writes
  · rw [if_pos writes]
    obtain ⟨read, there, write⟩ := writes
    have onLive := agree.mp there
    have count := blockCount_removePeer_self there
    have safe : RemovalSafe env id h ↔ (env.remove = true ↔ blockCount h.file id = 1) :=
      ⟨fun all => all read there write, fun one _ _ _ => one⟩
    rw [safe, Agree]
    cases env.remove with
    | true =>
      simp only [if_true]
      rw [count, KeyTable.get_delete_self]
      simp only [Option.isSome_none, Bool.false_eq_true, iff_false, true_iff]
      omega
    | false =>
      simp only [Bool.false_eq_true, if_false]
      rw [count, onLive]
      simp only [iff_true, false_iff]
      omega

theorem blockCount_exec_removePeer_of_ne (env : Env) (h : Host) (different : other ≠ id) :
    blockCount ((removePeer env id).exec h).2.file other = blockCount h.file other := by
  rw [exec_removePeer_count]
  split
  · have count := blockCount_removePeer_of_ne h.file different
    cases env.remove <;> exact count
  · rfl

end

section
variable (p : Panel)

theorem exec_disablePeer (env : DisableEnv) (pubkey : Text) :
    (disablePeer env pubkey).exec p =
      match ((findListed env.list pubkey).exec p.host).1 with
      | none => (none, p)
      | some target =>
        if env.saveDisabled then
          let row : Store.DisabledPeer := ⟨target.name, [','].intercalate target.allowedIPs, target.keepalive⟩
          let saved := p.tables.disabled.upsert pubkey row
          match (removePeer env.remove pubkey).exec p.host with
          | (some _, h) => (some (), ⟨h, { p.tables with disabled := saved }⟩)
          | (none, h) =>
            (none, ⟨h, { p.tables with disabled := if env.deleteDisabled then saved.delete pubkey else saved }⟩)
        else (none, p) := by
  have listed : ((findListed env.list pubkey).exec p.host).2 = p.host := by rw [exec_findListed]
  unfold disablePeer
  rw [Proc.exec_bind, onHost, Proc.exec_zoom, listed]
  cases ((findListed env.list pubkey).exec p.host).1 with
  | none => rfl
  | some target =>
    dsimp only
    cases env.saveDisabled with
    | false => rfl
    | true =>
      simp only [if_true]
      rw [Proc.exec_bind, onTables, Proc.exec_guard_bind, if_pos rfl, Proc.exec_modify]
      dsimp only
      rw [Proc.exec_bind, Proc.exec_attempt, onHost, Proc.exec_zoom]
      dsimp only
      rcases (removePeer env.remove pubkey).exec p.host with ⟨_ | _, h⟩
      · cases env.deleteDisabled <;> rfl
      · rfl

theorem exec_apiEnablePeer (env : EnableEnv) (pubkey : Text) :
    (apiEnablePeer env pubkey).exec p =
      match if env.getDisabled then p.tables.disabled.get pubkey else none with
      | none => (none, p)
      | some dp =>
        match (addConfiguredPeer env.add pubkey (disabledSpec dp)).exec p.host with
        | (some _, h) =>
          (some (), ⟨h, { p.tables with
            disabled := if env.deleteDisabled then p.tables.disabled.delete pubkey else p.tables.disabled }⟩)
        | (none, h) => (none, { p with host := h }) := by
  unfold apiEnablePeer
  rw [Proc.exec_bind, Proc.exec_read]
  cases if env.getDisabled then p.tables.disabled.get pubkey else none with
  | none => rfl
  | some dp =>
    dsimp only
    rw [Proc.exec_bind, onHost, Proc.exec_zoom]
    rcases (addConfiguredPeer env.add pubkey (disabledSpec dp)).exec p.host with ⟨_ | _, h⟩
    · rfl
    · cases env.deleteDisabled <;> rfl

end

/-- What must go well for the homes of the peers. -/
def Request.Safe (p : Panel) : Request → Prop
  | .disable env pubkey =>
    ((findListed env.list pubkey).exec p.host).1.isSome = true → env.saveDisabled = true → OneHome pubkey p →
      if env.remove.readConf = true ∧ 0 < blockCount p.host.file pubkey ∧ env.remove.writeConf = true then
        (blockCount p.host.file pubkey = 1 ↔ env.remove.remove = true ∨ env.deleteDisabled = false)
      else (0 < blockCount p.host.file pubkey ↔ env.deleteDisabled = true)
  | .enable env pubkey =>
    ∀ dp, p.tables.disabled.get pubkey = some dp → env.getDisabled = true →
      admitted env.add (disabledSpec dp) ((parseConf p.host.file).findPeer pubkey).isNone = true →
      env.add.writeConf = true → PlainValue pubkey ∧
        if env.add.apply then env.deleteDisabled = true
        else env.add.readPrev = true ∧ env.add.rollback = true ∧ p.host.file ≠ []

section
variable {p : Panel} {pubkey key : Text}

theorem oneHome_of_same {p' : Panel} (home : OneHome key p)
    (blocks : blockCount p'.host.file key = blockCount p.host.file key)
    (row : p'.tables.disabled.get key = p.tables.disabled.get key) : OneHome key p' := by
  rw [OneHome, blocks, row]
  exact home

theorem oneHome_disable {env : DisableEnv} (safe : (Request.disable env pubkey).Safe p) (home : OneHome key p) :
    OneHome key (handleRequest p (.disable env pubkey)) := by
  unfold handleRequest Request.handle
  rw [exec_disablePeer]
  cases listed : ((findListed env.list pubkey).exec p.host).1 with
  | none => exact home
  | some target =>
    cases save : env.saveDisabled with
    | false => exact home
    | true =>
      simp only [if_true]
      by_cases same : key = pubkey
      swap
      · have blocks := blockCount_exec_removePeer_of_ne env.remove p.host same
        rcases result : (removePeer env.remove pubkey).exec p.host with ⟨_ | _, h⟩ <;> rw [result] at blocks
        · refine oneHome_of_same home blocks ?_
          cases env.deleteDisabled
          · exact KeyTable.get_upsert_of_ne _ _ same
          · exact (KeyTable.get_delete_of_ne _ same).trans (KeyTable.get_upsert_of_ne _ _ same)
        · exact oneHome_of_same home blocks (KeyTable.get_upsert_of_ne _ _ same)
      · subst same
        have cond := safe (by rw [listed]; rfl) save home
        rw [exec_removePeer_count]
        split at cond
        · rename_i writes
          have count := blockCount_removePeer_self writes.2.1
          rw [if_pos writes]
          cases remove : env.remove.remove <;> cases delete : env.deleteDisabled <;> rw [remove, delete] at cond
          all_goals
            simp only [if_true, Bool.false_eq_true, if_false, OneHome, count, KeyTable.get_upsert_self,
              KeyTable.get_delete_self, reduceCtorEq, iff_false, iff_true, or_true, or_false] at cond ⊢
            omega
        · rename_i unwritten
          rw [if_neg unwritten]
          cases delete : env.deleteDisabled <;> rw [delete] at cond
          · simp only [OneHome, Bool.false_eq_true, if_false, KeyTable.get_upsert_self, reduceCtorEq] at cond ⊢
            exact cond
          · simp only [OneHome, if_true, KeyTable.get_delete_self] at cond ⊢
            exact cond

theorem oneHome_enable {env : EnableEnv} (safe : (Request.enable env pubkey).Safe p) (home : OneHome key p) :
    OneHome key (handleRequest p (.enable env pubkey)) := by
  unfold handleRequest Request.handle
  rw [exec_apiEnablePeer]
  cases row : (if env.getDisabled then p.tables.disabled.get pubkey else none) with
  | none => exact home
  | some dp =>
    obtain ⟨get, row⟩ : env.getDisabled = true ∧ p.tables.disabled.get pubkey = some dp := by
      cases get : env.getDisabled <;> simp [get] at row ⊢
      exact row
    dsimp only
    rw [exec_addConfiguredPeer]
    by_cases passed : admitted env.add (disabledSpec dp) ((parseConf p.host.file).findPeer pubkey).isNone = true
    swap
    · rw [if_neg passed]
      exact home
    rw [if_pos passed, exec_writeConfAndApply]
    cases write : env.add.writeConf with
    | false => exact home
    | true =>
      obtain ⟨plain, cond⟩ := safe dp row get passed write
      simp only [if_true]
      cases apply : env.add.apply with
      | false =>
        rw [apply] at cond
        simp only [Bool.false_eq_true, if_false] at cond ⊢
        rw [if_pos cond]
        exact home
      | true =>
        have ips : validateAllowedIPs (disabledSpec dp).allowedIPs = true := by
          simp only [admitted, Bool.and_eq_true] at passed
          exact passed.1.1.2
        have extra : ∀ kv ∈ (disabledSpec dp).extra, kv.Valid := by simp [disabledSpec]
        have blocks := blockCount_addPeer p.host.file key plain ips extra (disabledSpec dp).name
        rw [apply, if_pos rfl] at cond
        simp only [if_true, cond]
        by_cases same : key = pubkey
        · rw [if_pos same] at blocks
          subst same
          refine iff_of_true ?_ (KeyTable.get_delete_self _ _)
          dsimp only
          omega
        · rw [if_neg same] at blocks
          exact oneHome_of_same home blocks (KeyTable.get_delete_of_ne _ same)

end

/-- A removal keeps the file and the interface in agreement exactly if the live
command follows the file, and a run of safe requests leaves every peer in the
file or in the table of disabled peers, not in both. -/
theorem peer_homes (env : Env) {id key : Text} {h : Host} {p : Panel} {rs : List Request} (agree : Agree id h)
    (safe : Run.Meets handleRequest Request.Safe p rs) (home : OneHome key p) :
    (Agree id ((removePeer env id).exec h).2 ↔ RemovalSafe env id h) ∧ OneHome key (Run.after handleRequest p rs) := by
  refine ⟨agree_removePeer_iff agree, Run.Meets.invariant (OneHome key) (fun p r home safe => ?_) home safe⟩
  cases r with
  | disable env pubkey => exact oneHome_disable safe home
  | enable env pubkey => exact oneHome_enable safe home

def homeKey : Text := "a2V5".toList

/-- One peer, with a name, in the file and on the interface. -/
def homePanel : Panel :=
  ⟨⟨"# Name: b\n[Peer]\nPublicKey = a2V5\nAllowedIPs = 10.0.0.2/32\n".toList, [], 0,
    KeyTable.empty.upsert homeKey ⟨["10.0.0.2/32".toList], 0⟩⟩, {}⟩

theorem peer_homes_sample :
    Agree homeKey ((removePeer {} homeKey).exec homePanel.host).2 ∧
      OneHome homeKey (Run.after handleRequest homePanel [.disable {} homeKey, .enable {} homeKey]) := by
  have single : blockCount homePanel.host.file homeKey = 1 := by decide +kernel
  have removal : RemovalSafe {} homeKey homePanel.host := fun _ _ _ => iff_of_true rfl single
  have safe : Run.Meets handleRequest Request.Safe homePanel [.disable {} homeKey, .enable {} homeKey] := by
    refine ⟨fun _ _ _ => ?_, fun dp _ _ _ _ => ⟨⟨by decide +kernel, by decide +kernel⟩, rfl⟩, trivial⟩
    rw [single, if_pos ⟨rfl, by decide, rfl⟩]
    exact iff_of_true rfl (.inl rfl)
  have homes := peer_homes {} (by decide +kernel : Agree homeKey homePanel.host) safe
    (by decide +kernel : OneHome homeKey homePanel)
  exact ⟨homes.1.mpr removal, homes.2⟩

/-- The interface keeps a peer that is no longer in the file, and a disable
that ends so deletes the row of the peer as well. -/
theorem peer_homes_lost :
    (Agree homeKey homePanel.host ∧ ¬ Agree homeKey ((removePeer { remove := false } homeKey).exec homePanel.host).2) ∧
      OneHome homeKey homePanel ∧
      ¬ OneHome homeKey (Run.after handleRequest homePanel [.disable { remove := { remove := false } } homeKey]) := by
  decide +kernel

end Protean.WgFamily
