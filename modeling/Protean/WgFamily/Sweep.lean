import Protean.WgFamily.Disable

namespace Protean.WgFamily

/-- How the steps of a sweep go, peer by peer. -/
structure SweepEnv where
  listDue : Bool := true
  disable : Text → DisableEnv := fun _ => {}
  deleteExpiry : Text → Bool := fun _ => true

def listDuePeers (now : Int) (t : Store.PeerTables) : List Text :=
  (t.expiry.rows.filter fun row => row.2 ≤ now).map Prod.fst

/-- The row is kept for the next sweep unless the peer was disabled. -/
def sweepPeer (env : SweepEnv) (p : Panel) (peerID : Text) : Panel :=
  match (disablePeer (env.disable peerID) peerID).exec p with
  | (none, p) => p
  | (some _, p) =>
    if env.deleteExpiry peerID then { p with tables := { p.tables with expiry := p.tables.expiry.delete peerID } } else p

def sweepExpired (env : SweepEnv) (now : Int) (p : Panel) : Panel :=
  if env.listDue then (listDuePeers now p.tables).foldl (sweepPeer env) p else p

/-- The peer has its row and is off the interface. -/
structure IsDisabled (key : Text) (p : Panel) : Prop where
  row : (p.tables.disabled.get key).isSome = true
  live : p.host.live.get key = none

/-- Every step of a disable works. -/
structure DisableEnv.Works (env : DisableEnv) : Prop where
  list : env.list.dump = .up ∧ env.list.readConf = true
  save : env.saveDisabled = true
  remove : env.remove.readConf = true ∧ env.remove.writeConf = true ∧ env.remove.remove = true

/-- Where a peer is found: as far as a disable of another peer is concerned. -/
structure SamePeer (key : Text) (p p' : Panel) : Prop where
  blocks : blockCount p'.host.file key = blockCount p.host.file key
  live : p'.host.live.get key = p.host.live.get key
  row : p'.tables.disabled.get key = p.tables.disabled.get key

theorem SamePeer.refl (key : Text) (p : Panel) : SamePeer key p p := ⟨rfl, rfl, rfl⟩

theorem SamePeer.trans {key : Text} {p p' p'' : Panel} (first : SamePeer key p p') (second : SamePeer key p' p'') :
    SamePeer key p p'' :=
  ⟨second.blocks.trans first.blocks, second.live.trans first.live, second.row.trans first.row⟩

section
variable {env : SweepEnv} {key other : Text} {p : Panel}

theorem samePeer_disablePeer (env : DisableEnv) (different : key ≠ other) (p : Panel) :
    SamePeer key p ((disablePeer env other).exec p).2 := by
  have blocks := blockCount_exec_removePeer_of_ne env.remove p.host different
  have live := live_removePeer env.remove different p.host
  rw [exec_disablePeer]
  cases ((findListed env.list other).exec p.host).1 with
  | none => exact .refl key p
  | some target =>
    cases env.saveDisabled with
    | false => exact .refl key p
    | true =>
      simp only [if_true]
      rcases result : (removePeer env.remove other).exec p.host with ⟨_ | _, h⟩ <;> rw [result] at blocks live
      · refine ⟨blocks, live, ?_⟩
        cases env.deleteDisabled
        · exact KeyTable.get_upsert_of_ne _ _ different
        · exact (KeyTable.get_delete_of_ne _ different).trans (KeyTable.get_upsert_of_ne _ _ different)
      · exact ⟨blocks, live, KeyTable.get_upsert_of_ne _ _ different⟩

theorem samePeer_sweepPeer (env : SweepEnv) (different : key ≠ other) (p : Panel) :
    SamePeer key p (sweepPeer env p other) := by
  have same := samePeer_disablePeer (env.disable other) different p
  unfold sweepPeer
  rcases result : (disablePeer (env.disable other) other).exec p with ⟨_ | _, p'⟩ <;> rw [result] at same
  · exact same
  · dsimp only
    split
    · exact ⟨same.blocks, same.live, same.row⟩
    · exact same

theorem samePeer_foldl (env : SweepEnv) {due : List Text} (fresh : key ∉ due) (p : Panel) :
    SamePeer key p (due.foldl (sweepPeer env) p) := by
  induction due generalizing p with
  | nil => exact .refl key p
  | cons other due ih =>
    rw [List.mem_cons, not_or] at fresh
    exact (samePeer_sweepPeer env fresh.1 p).trans (ih fresh.2 _)

/-- A peer that is there is disabled by its own turn. -/
theorem isDisabled_sweepPeer (works : (env.disable key).Works) (there : 0 < blockCount p.host.file key)
    (live : (p.host.live.get key).isSome = true) : IsDisabled key (sweepPeer env p key) := by
  obtain ⟨peer, found⟩ := Option.isSome_iff_exists.mp live
  have done : ∃ name, (disablePeer (env.disable key) key).exec p =
      (some (), ⟨{ p.host with
        file := ((parseConf p.host.file).removePeer key).render
        live := p.host.live.delete key }, { p.tables with
          disabled := p.tables.disabled.upsert key ⟨name, [','].intercalate peer.allowedIPs, peer.keepalive⟩ }⟩) := by
    rw [exec_disablePeer, exec_findListed, if_pos works.list, found, works.save, exec_removePeer_count,
      if_pos ⟨works.remove.1, there, works.remove.2.1⟩, works.remove.2.2]
    exact ⟨_, rfl⟩
  obtain ⟨name, done⟩ := done
  rw [sweepPeer, done]
  dsimp only
  split <;> exact ⟨by rw [KeyTable.get_upsert_self]; rfl, KeyTable.get_delete_self _ _⟩

theorem nodup_listDuePeers (now : Int) (t : Store.PeerTables) : (listDuePeers now t).Nodup :=
  t.expiry.nodup.sublist (List.filter_sublist.map _)

theorem mem_listDuePeers {now expires : Int} {t : Store.PeerTables} (row : t.expiry.get key = some expires)
    (due : expires ≤ now) :
    key ∈ listDuePeers now t :=
  List.mem_map.mpr ⟨(key, expires), List.mem_filter.mpr ⟨KeyTable.get_eq_some_iff.mp row, decide_eq_true due⟩, rfl⟩

/-- The first sweep after its time disables a peer, whatever becomes of the others. -/
theorem sweepExpired_disables {now expires : Int} (row : p.tables.expiry.get key = some expires) (due : expires ≤ now)
    (lists : env.listDue = true) (works : (env.disable key).Works) (there : 0 < blockCount p.host.file key)
    (live : (p.host.live.get key).isSome = true) : IsDisabled key (sweepExpired env now p) := by
  rw [sweepExpired, if_pos lists]
  obtain ⟨before, after, order, fresh⟩ := List.eq_append_cons_of_mem (mem_listDuePeers row due)
  have nodup := nodup_listDuePeers now p.tables
  rw [order, List.nodup_append, List.nodup_cons] at nodup
  rw [order, List.foldl_append, List.foldl_cons]
  have first := samePeer_foldl env fresh p
  have own : IsDisabled key (sweepPeer env (before.foldl (sweepPeer env) p) key) :=
    isDisabled_sweepPeer works (first.blocks ▸ there) (first.live ▸ live)
  have last := samePeer_foldl env nodup.2.1.1 (sweepPeer env (before.foldl (sweepPeer env) p) key)
  exact ⟨last.row ▸ own.row, last.live.trans own.live⟩

end

end Protean.WgFamily
