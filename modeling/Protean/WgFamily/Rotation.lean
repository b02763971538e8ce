import Protean.WgFamily.Atomic

namespace Protean.WgFamily

/-- How the steps of a rotation go, and the keys that are drawn for it. -/
structure RotateEnv where
  rotate : Env := {}
  drawn : Option (List UInt8 × List UInt8) := none
  secret : SecretEnv := {}
  listCategories : Bool := true
  setCategory : Bool := true
  deleteSecret : Bool := true
  deleteCategory : Bool := true

section
variable (env : RotateEnv)

def carryCategory (pubkey pub : Text) : Proc Panel Unit := do
  let categories ← Proc.attempt (Proc.read fun p => if env.listCategories then some p.tables.category else none)
  match categories with
  | none => return
  | some categories =>
    let c := (categories.get pubkey).getD []
    Proc.when (c ≠ []) do
      let _ ← Proc.attempt (onTables env.setCategory fun t => { t with category := t.category.upsert pub c })

/-- Gives the new key. -/
def apiRotatePeer (pubkey : Text) : Proc Panel Text := do
  let (priv, pub) ← onHost (rotatePeerKey env.rotate env.drawn pubkey)
  storeSecret env.secret priv pub
  carryCategory env pubkey pub
  let _ ← Proc.attempt (onTables env.deleteSecret fun t => { t with secrets := t.secrets.delete pubkey })
  let _ ← Proc.attempt (onTables env.deleteCategory fun t => { t with category := t.category.delete pubkey })
  return pub

end

section
variable (env : Env) (drawn : Option (List UInt8 × List UInt8)) (old : Text) (h : Host)

/-- The block and the keys with which a rotation comes to write the file. -/
def rotationWrites : Option (ConfPeer × Text × Text) :=
  if env.readConf && env.writeConf then do
    let peer ← (parseConf h.file).findPeer old
    let keys ← generateKeyPair drawn
    if (parseConf h.file).findPeer keys.2 = none then some (peer, keys) else none
  else none

def rotatedConf (conf : ConfFile) (peer : ConfPeer) (pub : Text) : ConfFile :=
  (conf.removePeer old).addPeer ⟨peer.name, peerOpts pub ⟨peer.name, peer.allowedIPs, peer.keepalive, []⟩⟩

/-- The file after a rollback. -/
def restoredFile (written : Text) : Text :=
  if env.readPrev = true ∧ env.rollback = true ∧ h.file ≠ [] then h.file else written

theorem exec_rollback_written (written : Text) (live : KeyTable Text LivePeer) :
    (do rollback env (if env.readPrev then h.file else []); Proc.lift (none : Option (Text × Text))).exec
        { h with file := written, live := live } =
      (none, { h with file := restoredFile env h written, live := live }) := by
  rw [Proc.exec_bind, exec_rollback, restoredFile]
  by_cases empty : h.file = []
  · cases env.readPrev <;> simp [empty]
  · cases env.readPrev <;> cases env.rollback <;> simp [empty]

theorem exec_rotatePeerKey :
    (rotatePeerKey env drawn old).exec h =
      match rotationWrites env drawn old h with
      | none => (none, h)
      | some (peer, keys) =>
        let written := (rotatedConf old (parseConf h.file) peer keys.2).render
        if env.remove then
          if env.apply then
            (some keys, { h with
              file := written
              live := (h.live.delete old).upsert keys.2 ⟨peer.allowedIPs, max peer.keepalive 0⟩ })
          else (none, { h with file := restoredFile env h written, live := h.live.delete old })
        else (none, { h with file := restoredFile env h written }) := by
  unfold rotatePeerKey rotationWrites
  rw [exec_readConf_bind, Proc.exec_lift_bind]
  cases read : env.readConf with
  | false => rfl
  | true =>
    simp only [if_true, Bool.true_and]
    cases (parseConf h.file).findPeer old with
    | none => cases env.writeConf <;> rfl
    | some peer =>
      dsimp only
      rw [Proc.exec_lift_bind]
      cases generateKeyPair drawn with
      | none => cases env.writeConf <;> rfl
      | some keys =>
        simp only [Option.bind_eq_bind, Option.bind_some, Proc.exec_guard_bind]
        cases (parseConf h.file).findPeer keys.2 with
        | some other => cases env.writeConf <;> rfl
        | none =>
          simp only [Option.isNone_none, if_true]
          rw [Proc.exec_bind, exec_writeConf]
          cases env.writeConf with
          | false => rfl
          | true =>
            simp only [if_true]
            rw [Proc.exec_bind, Proc.exec_attempt, exec_removePeerLive]
            cases env.remove with
            | false => exact exec_rollback_written env h _ _
            | true =>
              simp only [if_true]
              rw [Proc.exec_bind, Proc.exec_attempt, exec_applyPeerLive]
              cases env.apply with
              | false => exact exec_rollback_written env h _ _
              | true => rfl

end

/-- The categories after a rotation has carried the one of the old key. -/
def carriedCategory (env : RotateEnv) (old pub : Text) (category : KeyTable Text Text) : KeyTable Text Text :=
  let c := (category.get old).getD []
  if env.listCategories = true ∧ c ≠ [] ∧ env.setCategory = true then category.upsert pub c else category

/-- The tables after a rotation that succeeds. -/
def rotatedTables (env : RotateEnv) (old pub blob : Text) (t : Store.PeerTables) : Store.PeerTables :=
  let secrets := t.secrets.upsert pub blob
  let category := carriedCategory env old pub t.category
  { t with
    secrets := if env.deleteSecret then secrets.delete old else secrets
    category := if env.deleteCategory then category.delete old else category }

section
variable (env : RotateEnv) (old : Text) (p : Panel)

theorem exec_carryCategory (pub : Text) :
    (carryCategory env old pub).exec p =
      (some (), { p with tables := { p.tables with category := carriedCategory env old pub p.tables.category } }) := by
  unfold carryCategory carriedCategory
  rw [Proc.exec_bind, Proc.exec_attempt, Proc.exec_read]
  cases env.listCategories with
  | false => simp
  | true =>
    dsimp only
    cases env.setCategory <;> by_cases some : (p.tables.category.get old).getD [] = [] <;>
      simp [some, Proc.when, onTables, Proc.exec_bind]

theorem exec_apiRotatePeer :
    (apiRotatePeer env old).exec p =
      match (rotatePeerKey env.rotate env.drawn old).exec p.host with
      | (none, h) => (none, { p with host := h })
      | (some keys, h) =>
        match env.secret.stored keys.1 with
        | none => (none, { p with host := ((removePeer env.secret.remove keys.2).exec h).2 })
        | some blob => (some keys.2, ⟨h, rotatedTables env old keys.2 blob p.tables⟩) := by
  unfold apiRotatePeer
  rw [Proc.exec_bind, onHost, Proc.exec_zoom]
  rcases (rotatePeerKey env.rotate env.drawn old).exec p.host with ⟨_ | keys, h⟩
  · rfl
  · dsimp only
    rw [Proc.exec_bind, exec_storeSecret]
    cases env.secret.stored keys.1 with
    | none => rfl
    | some blob =>
      dsimp only
      rw [Proc.exec_bind, exec_carryCategory]
      unfold rotatedTables
      cases env.deleteSecret <;> cases env.deleteCategory <;> rfl

end

/-- What a rotation that ends in an error should leave as it was. -/
structure KeepsOld (old : Text) (drawn : Option (List UInt8 × List UInt8)) (before after : Host) : Prop where
  file : ((parseConf after.file).findPeer old).map ConfPeer.opts = ((parseConf before.file).findPeer old).map ConfPeer.opts
  live : after.live.get old = before.live.get old
  newFile : ∀ keys, generateKeyPair drawn = some keys → (parseConf before.file).findPeer keys.2 = none →
    (parseConf after.file).findPeer keys.2 = none
  newLive : ∀ keys, generateKeyPair drawn = some keys → before.live.get keys.2 = none → after.live.get keys.2 = none

theorem KeepsOld.refl (old : Text) (drawn : Option (List UInt8 × List UInt8)) (h : Host) : KeepsOld old drawn h h :=
  ⟨rfl, rfl, fun _ _ fresh => fresh, fun _ _ fresh => fresh⟩

/-- A block that is added is found by its key, whatever its other options are. -/
theorem findPeer_addPeer_isSome {conf : ConfFile} (valid : conf.Valid) {key : Text} (plain : PlainValue key) (name : Text)
    (spec : PeerSpec) : ((parseConf (conf.addPeer ⟨name, peerOpts key spec⟩).render).findPeer key).isSome = true := by
  obtain ⟨more, block⟩ := ConfPeer.peers_parsed ⟨name, peerOpts key spec⟩
  have own : ∀ kv ∈ [(⟨"PublicKey".toList, key⟩ : KV)], kv.Valid := by
    rw [List.forall_mem_singleton]
    exact .of_plain (peerKeys_valid List.mem_cons_self _) plain
  have options : ∃ rest, blockOpts (interfaceLines (peerOpts key spec)) = ⟨"PublicKey".toList, key⟩ :: rest :=
    ⟨_, (congrArg blockOpts (interfaceLines_append [_] _)).trans (blockOpts_append_of_valid own _)⟩
  obtain ⟨rest, options⟩ := options
  have parsed := @parseConf_render_block _ _ [] ⟨name, peerOpts key spec⟩ valid.interfaceOpts valid.peers (by simp)
  rw [ConfFile.addPeer, parsed, block, options, ConfFile.findPeer, List.find?_isSome]
  refine ⟨⟨nameAfter [] name, ⟨"PublicKey".toList, key⟩ :: rest⟩, ?_, ?_⟩
  · exact List.mem_append_right _ (List.mem_append_left _ List.mem_cons_self)
  · exact decide_eq_true (getOpt_cons_of_eq (equalFold_refl _))

theorem removePeer_valid {conf : ConfFile} (valid : conf.Valid) (key : Text) : (conf.removePeer key).Valid :=
  ⟨valid.interfaceOpts, fun p member => valid.peers p (List.eraseP_sublist.subset member)⟩

/-- Removing a peer leaves the others on the interface. -/
theorem live_removePeer (env : Env) {id key : Text} (other : key ≠ id) (h : Host) :
    ((removePeer env id).exec h).2.live.get key = h.live.get key := by
  rw [exec_removePeer]
  split
  · cases env.remove with
    | false => rfl
    | true => exact KeyTable.get_delete_of_ne _ other
  · rfl

theorem plainValue_generateKeyPair {drawn : Option (List UInt8 × List UInt8)} {keys : Text × Text}
    (generated : generateKeyPair drawn = some keys) : PlainValue keys.2 := by
  obtain ⟨bytes, _, rfl⟩ := Option.map_eq_some_iff.mp generated
  exact plainValue_encodeStd _

theorem rotationWrites_eq_some_iff {env : Env} {drawn : Option (List UInt8 × List UInt8)} {old : Text} {h : Host}
    {peer : ConfPeer} {keys : Text × Text} :
    rotationWrites env drawn old h = some (peer, keys) ↔
      (env.readConf = true ∧ env.writeConf = true) ∧ (parseConf h.file).findPeer old = some peer ∧
        generateKeyPair drawn = some keys ∧ (parseConf h.file).findPeer keys.2 = none := by
  constructor
  · intro writes
    unfold rotationWrites at writes
    split at writes
    · rename_i steps
      obtain ⟨peer', found, writes⟩ := Option.bind_eq_some_iff.mp writes
      obtain ⟨keys', generated, writes⟩ := Option.bind_eq_some_iff.mp writes
      split at writes
      · rename_i fresh
        cases writes
        exact ⟨Bool.and_eq_true_iff.mp steps, found, generated, fresh⟩
      · cases writes
    · cases writes
  · rintro ⟨⟨read, write⟩, found, generated, fresh⟩
    simp [rotationWrites, read, write, found, generated, fresh]

section
variable {env : Env} {drawn : Option (List UInt8 × List UInt8)} {old : Text} {h : Host} {peer : ConfPeer}
  {keys : Text × Text}

/-- While the old key is on the interface, the file alone decides. -/
theorem unremoved_keepsOld_iff (rolls : env.rollback = true)
    (writes : rotationWrites env drawn old h = some (peer, keys)) :
    KeepsOld old drawn h
        { h with file := restoredFile env h (rotatedConf old (parseConf h.file) peer keys.2).render } ↔
      env.readPrev = true := by
  obtain ⟨_, there, generated, fresh⟩ := rotationWrites_eq_some_iff.mp writes
  have content : h.file ≠ [] := by
    intro empty
    rw [empty] at there
    cases there
  cases readable : env.readPrev with
  | true =>
    rw [restoredFile, if_pos ⟨readable, rolls, content⟩]
    exact iff_of_true (.refl _ _ _) rfl
  | false =>
    rw [restoredFile, if_neg (by simp [readable])]
    refine iff_of_false (fun keeps => ?_) (by simp)
    have some' := findPeer_addPeer_isSome (removePeer_valid (parseConf_valid h.file) old)
      (plainValue_generateKeyPair generated) peer.name ⟨peer.name, peer.allowedIPs, peer.keepalive, []⟩
    have none' := keeps.newFile keys generated fresh
    dsimp only [rotatedConf] at none'
    rw [none'] at some'
    cases some'

theorem removed_not_keepsOld {l : LivePeer} {after : Host} (onLive : h.live.get old = some l)
    (gone : after.live.get old = none) : ¬ KeepsOld old drawn h after := by
  intro keeps
  have live := keeps.live
  rw [gone, onLive] at live
  cases live

end

/-- What a rotation depends on once it writes the file. -/
structure Completes (env : RotateEnv) (priv : Text) : Prop where
  unremoved : env.rotate.remove = false → env.rotate.readPrev = true
  removed : env.rotate.remove = true → env.rotate.apply = true ∧ (env.secret.stored priv).isSome = true

theorem completes_unremoved_iff {env : RotateEnv} {priv : Text} (remove : env.rotate.remove = false) :
    Completes env priv ↔ env.rotate.readPrev = true := by
  refine ⟨fun complete => complete.unremoved remove, fun readable => ⟨fun _ => readable, fun other => ?_⟩⟩
  rw [remove] at other
  cases other

theorem completes_removed_iff {env : RotateEnv} {priv : Text} (remove : env.rotate.remove = true) :
    Completes env priv ↔ env.rotate.apply = true ∧ (env.secret.stored priv).isSome = true := by
  refine ⟨fun complete => complete.removed remove, fun done => ⟨fun other => ?_, fun _ => done⟩⟩
  rw [remove] at other
  cases other

/-- An error leaves the old key in its two places, exactly if nothing can fail
after the old key has left the interface, and the file can be restored before. -/
theorem failed_rotation_keeps_old_iff {env : RotateEnv} {old : Text} {p : Panel} {peer : ConfPeer} {l : LivePeer}
    (rolls : env.rotate.rollback = true) (there : (parseConf p.host.file).findPeer old = some peer)
    (onLive : p.host.live.get old = some l) :
    (((apiRotatePeer env old).exec p).1 = none → KeepsOld old env.drawn p.host ((apiRotatePeer env old).exec p).2.host) ↔
      ∀ keys, generateKeyPair env.drawn = some keys → (parseConf p.host.file).findPeer keys.2 = none →
        env.rotate.readConf = true → env.rotate.writeConf = true → Completes env keys.1 := by
  rw [exec_apiRotatePeer, exec_rotatePeerKey]
  cases writes : rotationWrites env.rotate env.drawn old p.host with
  | none =>
    refine iff_of_true (fun _ => .refl _ _ _) fun keys generated fresh read write => ?_
    have some' := rotationWrites_eq_some_iff.mpr ⟨⟨read, write⟩, there, generated, fresh⟩
    rw [writes] at some'
    cases some'
  | some writing =>
    obtain ⟨peer', keys⟩ := writing
    obtain ⟨⟨read, write⟩, found, generated, fresh⟩ := rotationWrites_eq_some_iff.mp writes
    have different : old ≠ keys.2 := by
      rintro rfl
      cases there.symm.trans fresh
    have completes : (∀ keys, generateKeyPair env.drawn = some keys → (parseConf p.host.file).findPeer keys.2 = none →
        env.rotate.readConf = true → env.rotate.writeConf = true → Completes env keys.1) ↔ Completes env keys.1 :=
      ⟨fun all => all keys generated fresh read write, fun one keys' same _ _ _ => by
        rwa [← Option.some.inj (generated.symm.trans same)]⟩
    rw [completes]
    dsimp only
    cases remove : env.rotate.remove with
    | false =>
      simp only [Bool.false_eq_true, if_false, forall_const]
      rw [unremoved_keepsOld_iff rolls writes, completes_unremoved_iff remove]
    | true =>
      rw [completes_removed_iff remove]
      simp only [if_true]
      cases env.rotate.apply with
      | false =>
        simp only [Bool.false_eq_true, if_false, forall_const, false_and, iff_false]
        exact removed_not_keepsOld onLive (KeyTable.get_delete_self _ _)
      | true =>
        simp only [if_true, true_and]
        cases env.secret.stored keys.1 with
        | some blob => exact iff_of_true (fun failed => by cases failed) rfl
        | none =>
          simp only [forall_const, Option.isSome_none, Bool.false_eq_true, iff_false]
          refine removed_not_keepsOld onLive ?_
          rw [live_removePeer _ different]
          dsimp only
          rw [KeyTable.get_upsert_of_ne _ _ different, KeyTable.get_delete_self]

def rotationPanel : Panel :=
  ⟨⟨"[Peer]\nPublicKey = a2V5\nAllowedIPs = 10.0.0.2/32\n".toList, [], 0,
    KeyTable.empty.upsert "a2V5".toList ⟨["10.0.0.2/32".toList], 0⟩⟩, {}⟩

def rotationEnv (remove apply save : Bool) : RotateEnv where
  rotate := { remove := remove, apply := apply }
  drawn := some ([1], [2])
  secret := { saveSecret := save }

theorem failed_rotation_keeps_old_iff_sample :
    ((apiRotatePeer (rotationEnv false true true) "a2V5".toList).exec rotationPanel).1 = none ∧
      KeepsOld "a2V5".toList (rotationEnv false true true).drawn rotationPanel.host
        ((apiRotatePeer (rotationEnv false true true) "a2V5".toList).exec rotationPanel).2.host := by
  have failed : ((apiRotatePeer (rotationEnv false true true) "a2V5".toList).exec rotationPanel).1 = none := by
    decide +kernel
  have there : (parseConf rotationPanel.host.file).findPeer "a2V5".toList =
      some ⟨[], [⟨"PublicKey".toList, "a2V5".toList⟩, ⟨"AllowedIPs".toList, "10.0.0.2/32".toList⟩]⟩ := by decide +kernel
  refine ⟨failed, (failed_rotation_keeps_old_iff rfl there (KeyTable.get_upsert_self _ _ _)).mpr ?_ failed⟩
  exact fun keys _ _ _ _ => ⟨fun _ => rfl, fun removed => by cases removed⟩

/-- `wg set` fails for the new key, or its secret cannot be stored: the old key
is not on the interface any more, and in the second case in no file. -/
theorem failed_rotation_loses_old :
    (((apiRotatePeer (rotationEnv true false true) "a2V5".toList).exec rotationPanel).1 = none ∧
      ¬ KeepsOld "a2V5".toList (rotationEnv true false true).drawn rotationPanel.host
        ((apiRotatePeer (rotationEnv true false true) "a2V5".toList).exec rotationPanel).2.host) ∧
    (((apiRotatePeer (rotationEnv true true false) "a2V5".toList).exec rotationPanel).1 = none ∧
      (parseConf ((apiRotatePeer (rotationEnv true true false) "a2V5".toList).exec rotationPanel).2.host.file).peers = [] ∧
      ¬ KeepsOld "a2V5".toList (rotationEnv true true false).drawn rotationPanel.host
        ((apiRotatePeer (rotationEnv true true false) "a2V5".toList).exec rotationPanel).2.host) := by
  refine ⟨⟨by decide +kernel, fun keeps => ?_⟩, by decide +kernel, by decide +kernel, fun keeps => ?_⟩
  · exact absurd keeps.live (by decide +kernel)
  · exact absurd keeps.live (by decide +kernel)

end Protean.WgFamily
